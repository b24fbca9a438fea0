import Mathlib.Algebra.Order.Ring.Nat
import Mathlib.Data.List.Basic
import Vcass.Core.Kernel

/-!
# Requests of the Block Device Protocol

The elements of the request and completion rings (`vcablk_common.h`), and the backend's
reading of a dequeued request (`vcablk_bcknd_disk_request_get_info`).

A request is the list of its parts.  Its first and its last part may be a `REQUEST_SYNC`,
which carries no data; the parts in between must have one type and continue each other's
sectors.
-/

namespace Vcass.BlockIo

open Vcass.Core

/-- `REQUEST_READ` -/
def requestRead : Nat := 1

/-- `REQUEST_WRITE` -/
def requestWrite : Nat := 2

/-- `REQUEST_SYNC` -/
def requestSync : Nat := 3

/-- `struct vcablk_request`: one part of a request.  The type is a raw byte of shared
memory, so it need not be one of the three above. -/
structure VcablkRequest where
  physBuff : Nat
  sector : Nat
  sectorsNum : Nat
  cookie : Nat
  requestType : Nat

/-- `struct vcablk_completion`; `ret` is an `__s8`. -/
structure VcablkCompletion where
  cookie : Nat
  ret : Int
deriving DecidableEq

/-- The cast `(__s8)ret` -/
def toS8 (ret : Int) : Int := Int.bmod ret 256

theorem toS8_eq_zero {ret : Int} : toS8 ret = 0 ↔ ret % 256 = 0 := by
  unfold toS8
  rw [Int.bmod_def]
  constructor
  · intro h
    split at h <;> omega
  · intro h
    split <;> omega

/-! ## Reading a request -/

/-- The out-parameters of `vcablk_bcknd_disk_request_get_info` -/
structure RequestInfo where
  cookie : Nat := 0
  type : Nat := 0
  sector : Nat := 0
  sectorsNum : Nat := 0
  syncBefore : Bool := false
  syncAfter : Bool := false

/-- The consistency loop: the parts from number `id` on, with the sector that is
expected next and the sum of sectors so far. -/
def checkParts (size cookie type : Nat) : Nat → Nat → Nat → List VcablkRequest → Int × Nat
  | _, _, sectorsNum, [] => (0, sectorsNum)
  | id, checkSector, sectorsNum, request :: rest =>
    if cookie ≠ request.cookie then
      (-eIo, sectorsNum)
    else if request.requestType = requestSync ∧ (id = 0 ∨ id + 1 = size) then
      checkParts size cookie type (id + 1) checkSector sectorsNum rest
    else if type ≠ request.requestType then
      (-eIo, sectorsNum)
    else if checkSector ≠ request.sector then
      (-eIo, sectorsNum)
    else
      checkParts size cookie type (id + 1) ((checkSector + request.sectorsNum) % 2 ^ 64)
        ((sectorsNum + request.sectorsNum) % 2 ^ 64) rest

/-- The part that gives a request its type and its first sector. -/
def leadingPart (first : VcablkRequest) (rest : List VcablkRequest) : VcablkRequest :=
  if first.requestType = requestSync then rest.headD first else first

/-- `vcablk_bcknd_disk_request_get_info`: the return value and the out-parameters.
An empty request leaves the caller's `req_cookie = 0` in place. -/
def vcablkBckndDiskRequestGetInfo (requestBuff : List VcablkRequest) : Int × RequestInfo :=
  match requestBuff with
  | [] => (-eIo, {})
  | first :: rest =>
    let size := requestBuff.length
    let cookie := first.cookie
    let syncAfter := decide ((rest.getLastD first).requestType = requestSync)
    if first.requestType = requestSync ∧ size = 1 then
      (0, { cookie := cookie, type := requestSync, syncAfter := syncAfter })
    else
      let request := leadingPart first rest
      let type := request.requestType
      let info : RequestInfo :=
        { cookie := cookie, type := type, sector := request.sector,
          syncBefore := decide (first.requestType = requestSync), syncAfter := syncAfter }
      if type = requestRead ∨ type = requestWrite ∨ type = requestSync then
        let (err, sectorsNum) := checkParts size cookie type 0 request.sector 0 requestBuff
        (err, { info with sectorsNum := sectorsNum })
      else
        (-eIo, info)

/-- The parts that `vcablk_bcknd_disk_request` hands to `vcablk_bcknd_transfer`: from
`id` up to `end_id`. -/
def dataParts (info : RequestInfo) (requestBuff : List VcablkRequest) : List VcablkRequest :=
  let id := if info.syncBefore then 1 else 0
  let endId := if info.syncAfter then requestBuff.length - 1 else requestBuff.length
  (requestBuff.take endId).drop id

theorem checkParts_err (size cookie type : Nat) (parts : List VcablkRequest) :
    ∀ id check sum, (checkParts size cookie type id check sum parts).1 = 0 ∨
      (checkParts size cookie type id check sum parts).1 = -eIo := by
  induction parts with
  | nil =>
    intro id check sum
    exact Or.inl rfl
  | cons request rest ih =>
    intro id check sum
    rw [checkParts]
    split_ifs
    · exact Or.inr rfl
    · exact ih _ _ _
    · exact Or.inr rfl
    · exact Or.inr rfl
    · exact ih _ _ _

/-- A request is refused with `-EIO` only. -/
theorem getInfo_err (parts : List VcablkRequest) :
    (vcablkBckndDiskRequestGetInfo parts).1 = 0 ∨
      (vcablkBckndDiskRequestGetInfo parts).1 = -eIo := by
  cases parts with
  | nil => exact Or.inr rfl
  | cons first rest =>
    rw [vcablkBckndDiskRequestGetInfo]
    dsimp only
    split_ifs
    · exact Or.inl rfl
    · exact checkParts_err _ _ _ _ _ _ _
    · exact Or.inr rfl

/-- The cookie of the first part, 0 for an empty request. -/
def requestCookie (parts : List VcablkRequest) : Nat := (parts.head?.map (·.cookie)).getD 0

theorem getInfo_cookie (parts : List VcablkRequest) :
    (vcablkBckndDiskRequestGetInfo parts).2.cookie = requestCookie parts := by
  cases parts with
  | nil => rfl
  | cons first rest =>
    rw [vcablkBckndDiskRequestGetInfo]
    dsimp only
    split_ifs <;> rfl

/-- A leading `REQUEST_SYNC` is reported only when other parts follow. -/
theorem getInfo_syncBefore {parts : List VcablkRequest}
    (h : (vcablkBckndDiskRequestGetInfo parts).2.syncBefore = true) : parts.length ≠ 1 := by
  cases parts with
  | nil => simp
  | cons first rest =>
    rw [vcablkBckndDiskRequestGetInfo] at h
    dsimp only at h
    split_ifs at h with hsingle htype
    · simp only [decide_eq_true_eq] at h
      exact fun hlen => hsingle ⟨h, hlen⟩
    · simp only [decide_eq_true_eq] at h
      exact fun hlen => hsingle ⟨h, hlen⟩

end Vcass.BlockIo
