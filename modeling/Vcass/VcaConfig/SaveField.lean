import Vcass.Core.PropertyTree
import Vcass.VcaConfig.BlockName

/-!
# Saving a Field of the Configuration

The configuration file is a tree of cards, their cpus and the block devices of these, and a node
with global settings.  `save_global_field`, `save_cpu_field` and `save_blk_field` load the tree,
look for the field, set it and save the tree.

All nodes of a card and a cpu with the right ids are visited, but in each of them only the first
field of the name is set, and whether any was found is not remembered.  A call for a field, a cpu or
a device that is not in the file therefore returns true and sets nothing.  Later fields of the same
name keep their old value, and a load that goes through them all, as `parse_cpu` does, ends with
that one.

- `FieldCall.edit_eq_alter`: the loops set the first field in each place.
- `saveField_effective_iff`: the trees in which a saved field takes effect.
-/

namespace Vcass.VcaConfig

open Vcass.Core Vcass.Core.CString Vcass.Core.PTree

/-! ## The file -/

/-- A configuration below its header.  Keys and data are strings. -/
abbrev Config := PTree Str Str

/-- The exceptions of the property tree: no such path, or data of the wrong form -/
inductive Thrown where
  | badPath
  | badData

/-- How an edit of the tree ends before its end -/
inductive Stop where
  | returned (ok : Bool)
  | thrown (e : Thrown)

/-- How a call ends.  Only a missing path is caught by the calls themselves. -/
inductive Exit where
  | returned (ok : Bool)
  | thrown
deriving DecidableEq

/-- What a call meets: whether it gets the mutex, can read the file and can write it -/
structure Env where
  locked : Bool
  reads : Bool
  writes : Bool

/-- The fields of a block device, in the order of `blk_dev_fields` -/
inductive BlkDevField where
  | mode
  | path
  | ramdiskSizeMb
  | enabled
deriving DecidableEq

/-- `blk_data` -/
structure BlkData where
  fields : BlkDevField → Str
  exist : Bool

/-- `card[card_id].cpu[cpu_id].blk[blk_dev_id]`.  An index outside of the arrays is a place of its
own. -/
abbrev Memory := Nat → Nat → Int → BlkData

/-- The file and the members of `vca_config` -/
structure Store where
  file : Config
  mem : Memory

/-- `load_vca_xml`.  An empty configuration is refused. -/
def loadVcaXml (reads : Bool) (file : Config) : Option Config :=
  if reads && !file.children.isEmpty then some file else none

/-- The frame of all calls: the lock, the load, the handler around the edit, the save -/
def withFile {ε : Type} (env : Env) (stop : ε → Stop) (edit : Config → Run Memory ε Config)
    (st : Store) : Exit × Store :=
  if !env.locked then
    (.thrown, st)
  else
    match loadVcaXml env.reads st.file with
    | none => (.returned false, st)
    | some root =>
      match edit root st.mem with
      | (.ok root', mem) =>
        if env.writes then (.returned true, ⟨root', mem⟩) else (.returned false, ⟨st.file, mem⟩)
      | (.error e, mem) =>
        match stop e with
        | .returned ok => (.returned ok, ⟨st.file, mem⟩)
        | .thrown .badPath => (.returned false, ⟨st.file, mem⟩)
        | .thrown .badData => (.thrown, ⟨st.file, mem⟩)

theorem withFile_returned_true {ε : Type} {env : Env} {stop : ε → Stop}
    {edit : Config → Run Memory ε Config} {st : Store}
    (h : (withFile env stop edit st).1 = .returned true) :
    st.file.children ≠ [] ∧
      ((∃ root' mem, edit st.file st.mem = (.ok root', mem) ∧
        (withFile env stop edit st).2 = ⟨root', mem⟩) ∨
      ∃ e mem, edit st.file st.mem = (.error e, mem) ∧ stop e = .returned true ∧
        (withFile env stop edit st).2 = ⟨st.file, mem⟩) := by
  unfold withFile at h ⊢
  by_cases hlock : env.locked
  · cases hload : loadVcaXml env.reads st.file with
    | none => simp [hlock, hload] at h
    | some root =>
      obtain ⟨⟨-, hne⟩, rfl⟩ : (_ ∧ st.file.children ≠ []) ∧ st.file = root := by
        simpa [loadVcaXml] using hload
      refine ⟨hne, ?_⟩
      simp only [hlock, hload, Bool.not_true, Bool.false_eq_true, if_false] at h ⊢
      rcases hedit : edit st.file st.mem with ⟨e | root', mem⟩
      · -- the handler catches what the edit throws, and may return true all the same
        right
        refine ⟨e, mem, rfl, ?_⟩
        rcases hstop : stop e with ok | ⟨_ | _⟩ <;> simp [hedit, hstop] at h ⊢
        exact h
      · left
        by_cases hwrites : env.writes
        · exact ⟨root', mem, rfl, by simp [hwrites]⟩
        · simp [hedit, hwrites] at h
  · simp [hlock] at h

/-! ## Ids -/

/-- The key under which attributes are kept -/
def xmlattr : Str := ascii "<xmlattr>"

/-- `get<unsigned int>("<xmlattr>.id")` -/
def getId (t : Config) : Except Thrown Nat :=
  match (t.getChild xmlattr).bind fun u => u.getChild (ascii "id") with
  | none => .error .badPath
  | some u =>
    match streamUnsigned u.data with
    | none => .error .badData
    | some id => .ok id

def hasId (key : Str) (id : Nat) (v : Str × Config) : Bool :=
  v.1 = key && match getId v.2 with
    | .ok found => found == id
    | .error _ => false

def hasKey (key : Str) (v : Str × Config) : Bool := v.1 = key

section

variable {ε : Type} (raise : Thrown → ε)

/-- The test for a node with the key and the id.  The id is read only behind the key. -/
def isNode (key : Str) (id : Nat) (v : Str × Config) : Run Memory ε Bool := fun mem =>
  if v.1 = key then
    match getId v.2 with
    | .ok found => (.ok (found == id), mem)
    | .error e => (.error (raise e), mem)
  else
    (.ok false, mem)

/-- The loops over cards and cpus, with what is done to the cpus that match -/
def forCpu (cardId cpuId : Nat) (body : Config → Run Memory ε Config) :
    Config → Run Memory ε Config :=
  forNodes (isNode raise (ascii "card") cardId) fun _ =>
    forNodes (isNode raise (ascii "cpu") cpuId) fun _ => body

/-- A loop over the children with a key -/
def forKey (key : Str) (body : Config → Config → Run Memory ε Config) :
    Config → Run Memory ε Config :=
  forNodes (fun v => return hasKey key v) body

def cpuPlace (cardId cpuId : Nat) (ss : List (Step Str Str)) : List (Step Str Str) :=
  .every (hasId (ascii "card") cardId) :: .every (hasId (ascii "cpu") cpuId) :: ss

theorem isNode_cases (key : Str) (id : Nat) (v : Str × Config) (mem : Memory) :
    isNode raise key id v mem = (.ok (hasId key id v), mem) ∨
      ∃ e, isNode raise key id v mem = (.error (raise e), mem) := by
  unfold isNode hasId
  by_cases hkey : v.1 = key
  · cases hid : getId v.2 with
    | ok found => exact .inl (by simp [hkey])
    | error e => exact .inr ⟨e, by simp [hkey]⟩
  · exact .inl (by simp [hkey])

variable {raise}

theorem isNode_eq_ok {key : Str} {id : Nat} {v : Str × Config} {mem mem' : Memory} {found : Bool}
    (h : isNode raise key id v mem = (.ok found, mem')) : found = hasId key id v := by
  obtain hok | ⟨e, herror⟩ := isNode_cases raise key id v mem
  · rw [hok] at h
    simpa using congrArg Prod.fst h.symm
  · rw [herror] at h
    cases h

variable {ss : List (Step Str Str)} {f : Config → Config} {t t' : Config} {mem mem' : Memory}

theorem forCpu_alter {cardId cpuId : Nat} {body : Config → Run Memory ε Config}
    (hbody : ∀ u mem u' mem', body u mem = (.ok u', mem') → u' = alter ss f u)
    (h : forCpu raise cardId cpuId body t mem = (.ok t', mem')) :
    t' = alter (cpuPlace cardId cpuId ss) f t := by
  refine forNodes_alter ?_ (fun node card mem card' mem' hcard => ?_) h
  · exact fun _ _ _ _ => isNode_eq_ok
  · refine forNodes_alter ?_ (fun node => hbody) hcard
    exact fun _ _ _ _ => isNode_eq_ok

theorem forKey_alter {key : Str} {body : Config → Config → Run Memory ε Config}
    (hbody : ∀ node u mem u' mem', body node u mem = (.ok u', mem') → u' = alter ss f u)
    (h : forKey key body t mem = (.ok t', mem')) : t' = alter (.every (hasKey key) :: ss) f t := by
  refine forNodes_alter (fun v mem found mem' hv => ?_) hbody h
  simpa using congrArg Prod.fst hv.symm

end

/-! ## The calls -/

def setField (name value : Str) (t : Config) : Config :=
  t.setChildren (modifyFirst name (setData value) t.children)

/-- The loop of `save_global_field` -/
def setGlobalField (name value : Str) (root : Config) : Run Memory Thrown Config := fun mem =>
  if (root.getChild (ascii "global")).isSome then
    (.ok (root.setChildren (modifyFirst (ascii "global") (setField name value) root.children)), mem)
  else
    (.error .badPath, mem)

/-- The loops of `save_cpu_field` -/
def setCpuField (cardId cpuId : Nat) (name value : Str) : Config → Run Memory Thrown Config :=
  forCpu id cardId cpuId fun cpu => return setField name value cpu

/-- The name that an `unsigned int` passed as an `int` gives -/
def blkDevName (blkDevId : Nat) : Str :=
  getBlockDevNameFromId (BitVec.ofNat 32 blkDevId).toInt

/-- The loops of `save_blk_field` -/
def setBlkField (cardId cpuId blkDevId : Nat) (name value : Str) :
    Config → Run Memory Thrown Config :=
  forCpu id cardId cpuId <| forKey (ascii "block-devs") fun _ =>
    forKey (blkDevName blkDevId) fun _ dev => return setField name value dev

inductive FieldCall where
  | global (name value : Str)
  | cpu (cardId cpuId : Nat) (name value : Str)
  | blk (cardId cpuId blkDevId : Nat) (name value : Str)

namespace FieldCall

def name : FieldCall → Str
  | global name _ | cpu _ _ name _ | blk _ _ _ name _ => name

def value : FieldCall → Str
  | global _ value | cpu _ _ _ value | blk _ _ _ _ value => value

def edit : FieldCall → Config → Run Memory Thrown Config
  | global name value => setGlobalField name value
  | cpu cardId cpuId name value => setCpuField cardId cpuId name value
  | blk cardId cpuId blkDevId name value => setBlkField cardId cpuId blkDevId name value

/-- `save_global_field`, `save_cpu_field` and `save_blk_field`: the exit, and the file and the
members afterwards. -/
def run (call : FieldCall) (env : Env) (st : Store) : Exit × Store :=
  withFile env .thrown call.edit st

/-- The steps to the nodes that may have the field -/
def place : FieldCall → List (Step Str Str)
  | global _ _ => [.first (ascii "global")]
  | cpu cardId cpuId _ _ => cpuPlace cardId cpuId []
  | blk cardId cpuId blkDevId _ _ => cpuPlace cardId cpuId
    [.every (hasKey (ascii "block-devs")), .every (hasKey (blkDevName blkDevId))]

/-- **A call sets the first field of the name in each place.** -/
theorem edit_eq_alter (call : FieldCall) {t t' : Config} {mem mem' : Memory}
    (h : call.edit t mem = (.ok t', mem')) :
    t' = alter call.place (setField call.name call.value) t := by
  have hset : ∀ (name value : Str) (u : Config) (mem : Memory) (u' : Config) (mem' : Memory),
      (return setField name value u : Run Memory Thrown Config) mem = (.ok u', mem') →
      u' = alter [] (setField name value) u := by
    intro name value u mem u' mem' hu
    simpa [alter] using congrArg Prod.fst hu.symm
  cases call with
  | global name value =>
    simp only [edit, setGlobalField] at h
    split at h
    · exact (Except.ok.inj (congrArg Prod.fst h)).symm
    · cases h
  | cpu cardId cpuId name value => exact forCpu_alter (hset name value) h
  | blk cardId cpuId blkDevId name value =>
    refine forCpu_alter (fun _ _ _ _ hcpu => ?_) h
    refine forKey_alter (fun _ _ _ _ _ hdevs => ?_) hcpu
    exact forKey_alter (fun _ => hset name value) hdevs

end FieldCall

/-! ## Fields -/

/-- The values of the fields of a name in a node -/
def fieldsOf (name : Str) (t : Config) : List Str :=
  (t.children.filter (hasKey name)).map fun v => v.2.data

/-- A node without the values of its fields of a name -/
def maskFields (name : Str) : Config → Config :=
  alter [.every (hasKey name)] (setData [])

theorem fieldsOf_setField (name value : Str) (t : Config) :
    fieldsOf name (setField name value t) = (fieldsOf name t).modifyHead fun _ => value := by
  unfold fieldsOf setField
  rw [children_setChildren]
  induction t.children with
  | nil => rfl
  | cons v cs ih =>
    by_cases hkey : v.1 = name
    · simp [modifyFirst, hasKey, hkey]
    · simpa [modifyFirst, hasKey, hkey] using ih

theorem maskFields_setField (name value : Str) (t : Config) :
    maskFields name (setField name value t) = maskFields name t := by
  simp only [maskFields, alter, setField, children_setChildren, setChildren_setChildren]
  congr 1
  induction t.children with
  | nil => rfl
  | cons v cs ih =>
    by_cases hkey : v.1 = name
    · simp [modifyFirst, modifyEvery, hasKey, hkey]
    · simpa [modifyFirst, modifyEvery, hasKey, hkey] using ih

namespace FieldCall

/-- The values of all fields of the call in a tree -/
def fields (call : FieldCall) (t : Config) : List Str :=
  (nodes call.place t).flatMap (fieldsOf call.name)

/-- The call has taken effect: `load_vca_xml` finds the field in the file; where the field is
repeated, every one of them has the value; and the rest of the tree is as it was. -/
def Effective (call : FieldCall) (before file : Config) : Prop :=
  ∃ after, loadVcaXml true file = some after ∧
    call.fields after ≠ [] ∧ (∀ d ∈ call.fields after, d = call.value) ∧
    alter call.place (maskFields call.name) after = alter call.place (maskFields call.name) before

end FieldCall

/-! ## Ids stay -/

theorem hasId_congr {key : Str} {id : Nat} {v : Str × Config} {u : Config}
    (h : getId u = getId v.2) : hasId key id (v.1, u) = hasId key id v := by
  simp only [hasId, h]

theorem getId_alter_every {sel : Str × Config → Bool} {key : Str} (hkey : key ≠ xmlattr)
    (hsel : ∀ v, sel v → v.1 = key) (ss : List (Step Str Str)) (f : Config → Config)
    (t : Config) : getId (alter (.every sel :: ss) f t) = getId t := by
  have hattr : ∀ v : Str × Config, v.1 = xmlattr → sel v = false := fun v hv =>
    Bool.eq_false_iff.mpr fun h => hkey ((hsel v h).symm.trans hv)
  simp only [getId, alter, getChild_modifyEvery hattr]

theorem getId_setField (name value : Str) (t : Config) :
    getId (setField name value t) = getId t := by
  simp only [getId, setField, getChild_modifyFirst]
  by_cases hname : name = xmlattr
  · cases t.getChild xmlattr <;> simp [hname, getChild]
  · simp [hname]

theorem getId_alter_blockDevs (ss : List (Step Str Str)) (f : Config → Config) (t : Config) :
    getId (alter (.every (hasKey (ascii "block-devs")) :: ss) f t) = getId t := by
  have hkey : ascii "block-devs" ≠ xmlattr := by decide
  exact getId_alter_every hkey (fun v h => by simpa [hasKey] using h) ss f t

theorem stable_cpuPlace {ss : List (Step Str Str)} {f : Config → Config} (h : Stable ss f)
    (hid : ∀ t, getId (alter ss f t) = getId t) (cardId cpuId : Nat) :
    Stable (cpuPlace cardId cpuId ss) f := by
  have hkey : ascii "cpu" ≠ xmlattr := by decide
  refine ⟨fun v => hasId_congr ?_, fun v => hasId_congr (hid v.2), h⟩
  refine getId_alter_every hkey (fun w hw => ?_) ss f v.2
  simpa using (Bool.and_eq_true_iff.mp hw).1

theorem FieldCall.stable (call : FieldCall) :
    Stable call.place (setField call.name call.value) := by
  cases call with
  | global name value => trivial
  | cpu cardId cpuId name value =>
    have hend : Stable [] (setField name value) := trivial
    exact stable_cpuPlace hend (getId_setField name value) cardId cpuId
  | blk cardId cpuId blkDevId name value =>
    refine stable_cpuPlace ?_ (getId_alter_blockDevs _ _) cardId cpuId
    exact ⟨fun _ => rfl, fun _ => rfl, trivial⟩

/-! ## Calls that take effect -/

theorem FieldCall.children_alter_place (call : FieldCall) {f : Config → Config} {t : Config}
    (h : t.children ≠ []) : (alter call.place f t).children ≠ [] := by
  cases call with
  | global name value =>
    simp only [place, alter, children_setChildren]
    cases hcs : t.children with
    | nil => exact absurd hcs h
    | cons v cs =>
      unfold modifyFirst
      split <;> simp
  | cpu | blk => simpa [place, cpuPlace, alter, modifyEvery] using h

/-- **A call that returns true has taken effect exactly if the file had the field, and each field of
the name that is not the first in its node had the value already.** -/
theorem saveField_effective_iff (call : FieldCall) (env : Env) (st : Store)
    (h : (call.run env st).1 = .returned true) :
    call.Effective st.file (call.run env st).2.file ↔
      (∃ n ∈ nodes call.place st.file, fieldsOf call.name n ≠ []) ∧
      ∀ n ∈ nodes call.place st.file, ∀ d ∈ (fieldsOf call.name n).tail, d = call.value := by
  obtain ⟨hne, ⟨root', mem, hedit, hend⟩ | ⟨e, mem, -, hstop, -⟩⟩ := withFile_returned_true h
  · have hroot := call.edit_eq_alter hedit
    have hload : loadVcaXml true root' = some root' := by
      simp [loadVcaXml, hroot, call.children_alter_place hne]
    have hfields : call.fields root' = (nodes call.place st.file).flatMap fun n =>
        fieldsOf call.name (setField call.name call.value n) := by
      rw [FieldCall.fields, hroot, nodes_alter call.stable, List.flatMap_map]
    -- the edit changes nothing but fields of the name
    have hmask : alter call.place (maskFields call.name) root' =
        alter call.place (maskFields call.name) st.file := by
      rw [hroot, alter_alter call.stable]
      congr 1
      exact funext (maskFields_setField call.name call.value)
    rw [FieldCall.run, hend]
    simp only [FieldCall.Effective, hload, Option.some.injEq, exists_eq_left', hmask, and_true,
      hfields, fieldsOf_setField]
    refine and_congr (by simp) ?_
    simp only [List.mem_flatMap, forall_exists_index, and_imp]
    -- the first field of each node has the value, the others are as they were
    have hmem (n : Config) (d : Str) :
        (d ∈ (fieldsOf call.name n).modifyHead fun _ => call.value) → d = call.value ∨
          d ∈ (fieldsOf call.name n).tail := by
      cases fieldsOf call.name n <;> simp
    refine ⟨fun hall n hn d hd => hall d n hn ?_, fun hall d n hn hd => ?_⟩
    · cases hfs : fieldsOf call.name n <;> simp_all
    · obtain rfl | hd := hmem n d hd
      · rfl
      · exact hall n hn d hd
  · cases hstop

/-- A card or a cpu with the id 0 -/
def withIdZero (cs : List (Str × Config)) : Config :=
  node [] ((xmlattr, node [] [(ascii "id", node (ascii "0") [])]) :: cs)

/-- A file with the settings of one cpu, and members that no load has set -/
def oneCpu (cs : List (Str × Config)) : Store where
  file := node [] [(ascii "global", node [] []),
    (ascii "card", withIdZero [(ascii "cpu", withIdZero cs)])]
  mem := fun _ _ _ => ⟨fun _ => [], false⟩

/-- The address of a cpu is saved. -/
theorem saveField_effective_oneCpu :
    let call := FieldCall.cpu 0 0 (ascii "ip") (ascii "172.31.1.1")
    let st := oneCpu [(ascii "ip", node [] [])]
    call.Effective st.file (call.run ⟨true, true, true⟩ st).2.file :=
  (saveField_effective_iff _ _ _ (by decide)).mpr (by decide)

/-- A global field that is not in the file is not saved, and the call returns true. -/
theorem missingField_not_saved :
    let call := FieldCall.global (ascii "auto-boot") (ascii "0")
    let st := oneCpu []
    (call.run ⟨true, true, true⟩ st).1 = .returned true ∧
      ¬ call.Effective st.file (call.run ⟨true, true, true⟩ st).2.file := by
  refine ⟨by decide, ?_⟩
  rintro ⟨after, hload, hfound, -⟩
  obtain rfl := Option.some.inj hload
  exact hfound (by decide)

end Vcass.VcaConfig
