import Mathlib.Data.Int.Notation

/-!
# Kernel Constants

The `errno` values that the modelled functions return, negated as in the source, and the page size.
-/

namespace Vcass.Core

/-- `EPERM`: operation not permitted -/
def ePerm : Int := 1

/-- `EIO`: I/O error -/
def eIo : Int := 5

/-- `E2BIG`: argument list too long -/
def e2Big : Int := 7

/-- `ENOMEM`: out of memory -/
def eNoMem : Int := 12

/-- `EACCES`: permission denied -/
def eAcces : Int := 13

/-- `EFAULT`: bad address -/
def eFault : Int := 14

/-- `EBUSY`: device or resource busy -/
def eBusy : Int := 16

/-- `EEXIST`: file exists -/
def eExist : Int := 17

/-- `ENODEV`: no such device -/
def eNoDev : Int := 19

/-- `EINVAL`: invalid argument -/
def eInval : Int := 22

/-- `ENOSPC`: no space left on device -/
def eNoSpc : Int := 28

/-- `ETIME`: timer expired -/
def eTime : Int := 62

/-- `PAGE_SIZE` -/
def pageSize : Nat := 4096

end Vcass.Core
