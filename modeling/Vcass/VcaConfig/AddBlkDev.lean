import Mathlib.Data.List.Nodup
import Vcass.VcaConfig.SaveField

/-!
# Adding a Block Device to the Configuration

`add_blk_dev_fields` rebuilds the list `block-devs` of a cpu with a new entry at the place that its
id gives, and sets the flags `exist` of the devices in the list, which `blk_dev_exist` reads.

The flags are set from the node of the cpu as it is during the rebuilding, with the old list.  The
new entry is not in it, so its flag is as it was before the call.  A name that is accepted though it
is never written can also lose its entry: an entry with the id of the new one and another name is
left out, and a name with a dot is taken for a path.

- `rebuild_found`, `rebuild_new`: the two outcomes for a sorted list.
- `addBlkDev_complete_iff`: the calls after which the list and the flags are right.
-/

namespace Vcass.VcaConfig

open Vcass.Core Vcass.Core.CString Vcass.Core.PTree List

/-! ## Parsing a list -/

namespace BlkDevField

/-- The order of `blk_dev_fields` -/
def all : List BlkDevField := [mode, path, ramdiskSizeMb, enabled]

/-- `get_name` -/
def name : BlkDevField → Str
  | mode => ascii "mode"
  | path => ascii "path"
  | ramdiskSizeMb => ascii "ramdisk-size-mb"
  | enabled => ascii "enabled"

/-- `data_field::string` and `data_field::number` -/
def validator : BlkDevField → Str → Bool
  | mode, _ | path, _ => true
  | ramdiskSizeMb, val | enabled, val => val.all isDigit

end BlkDevField

/-- `try_set_data_field`, as far as its result is not used -/
def trySetDataField (val : Str) (field : BlkDevField) (dev : BlkData) : BlkData :=
  if field.validator val then
    { dev with fields := fun f => if f = field then val else dev.fields f }
  else
    dev

def parseBlkDev : List (Str × Config) → BlkData → BlkData
  | [], dev => dev
  | v :: cs, dev =>
    match BlkDevField.all.find? fun field => v.1 = field.name with
    | some field => parseBlkDev cs (trySetDataField v.2.data field dev)
    | none => parseBlkDev cs dev

/-- The loop of `parse_blk_devs` -/
def parseEntries (cardId cpuId : Nat) : List (Str × Config) → Memory → Memory
  | [], mem => mem
  | v :: cs, mem =>
    match extractBlockDevId (some v.1) with
    | (true, blkDevId) => parseEntries cardId cpuId cs fun card cpu id =>
      if card = cardId ∧ cpu = cpuId ∧ id = blkDevId then
        parseBlkDev v.2.children { mem card cpu id with exist := true }
      else
        mem card cpu id
    | (false, _) => parseEntries cardId cpuId cs mem

/-- `parse_blk_devs` -/
def parseBlkDevs (cardId cpuId : Nat) (node : Config) (mem : Memory) : Bool × Memory :=
  match node.getChild (ascii "block-devs") with
  | some devs => (true, parseEntries cardId cpuId devs.children mem)
  | none => (false, mem)

/-- `blk_dev_exist` -/
def blkDevExist (mem : Memory) (cardId cpuId : Nat) (blkDevId : BitVec 32) : Bool :=
  (blkDevId.toNat : Int) < maxBlkDevs && (mem cardId cpuId blkDevId.toNat).exist

/-! ## Adding an entry -/

/-- The separator of paths, `.` -/
def dot : UInt8 := 46

/-- `force_path` and `push_back` of the property tree: nodes on the way are made where they are
missing. -/
def addPath (value : Config) : List Str → List (Str × Config) → List (Str × Config)
  | [], cs => cs
  | [key], cs => cs ++ [(key, value)]
  | key :: key' :: path, cs =>
    let add (t : Config) := t.setChildren (addPath value (key' :: path) t.children)
    if key ∈ cs.map Prod.fst then modifyFirst key add cs else cs ++ [(key, add (node [] []))]

/-- `add_child`.  The key is a path. -/
def addChild (cs : List (Str × Config)) (v : Str × Config) : List (Str × Config) :=
  addPath v.2 (v.1.splitOn dot) cs

/-- `get_block_dev_name_from_id` and the new entry with empty fields -/
def newBlkDev (blkDevId : Int) : Str × Config :=
  (getBlockDevNameFromId blkDevId,
    node [] (BlkDevField.all.map fun field => (field.name, node [] [])))

section

variable (cardId cpuId : Nat) (blkDevId : Int) (node : Config)

/-- Add the new entry and parse the node of the cpu. -/
def addNew (new : List (Str × Config)) : Run Memory Stop (List (Str × Config)) := fun mem =>
  match parseBlkDevs cardId cpuId node mem with
  | (true, mem') => (.ok (addChild new (newBlkDev blkDevId)), mem')
  | (false, mem') => (.error (.returned false), mem')

/-- The loop over the entries of a list, and what follows it -/
def rebuild (added : Bool) (new : List (Str × Config)) :
    List (Str × Config) → Run Memory Stop (List (Str × Config))
  | [] => if added then pure new else addNew cardId cpuId blkDevId node new
  | v :: cs =>
    match extractBlockDevId (some v.1) with
    | (false, _) => throw (.returned false)
    | (true, id) =>
      if v.1 = getBlockDevNameFromId blkDevId then
        throw (.returned true)
      else if id < blkDevId then
        rebuild added (addChild new v) cs
      else if id > blkDevId then do
        let new ← if added then pure new else addNew cardId cpuId blkDevId node new
        rebuild true (addChild new v) cs
      else
        rebuild added new cs

def addEntry (devs : Config) : Run Memory Stop Config := do
  let cs ← rebuild cardId cpuId blkDevId node false [] devs.children
  return .node [] cs

end

/-- `add_blk_dev_fields`: the exit, and the file and the members afterwards -/
def addBlkDevFields (env : Env) (cardId cpuId : Nat) (blkDevId : Int) (st : Store) :
    Exit × Store :=
  withFile env id (forCpu .thrown cardId cpuId <|
    forKey (ascii "block-devs") (addEntry cardId cpuId blkDevId)) st

def devsPlace (cardId cpuId : Nat) : List (Step Str Str) :=
  cpuPlace cardId cpuId [.every (hasKey (ascii "block-devs"))]

/-! ## Sorted lists -/

def entryId (v : Str × Config) : Int := (extractBlockDevId (some v.1)).2

/-- All names of a list are accepted, and the ids rise. -/
structure Listed (cs : List (Str × Config)) : Prop where
  accepted : ∀ v ∈ cs, extractBlockDevId (some v.1) = (true, entryId v)
  sorted : cs.Pairwise (entryId · < entryId ·)

namespace Listed

variable {cs : List (Str × Config)} {v w : Str × Config}

theorem eq_of_id (h : Listed cs) (hv : v ∈ cs) (hw : w ∈ cs) (hid : entryId v = entryId w) :
    v = w :=
  inj_on_of_nodup_map (pairwise_map.mpr (h.sorted.imp ne_of_lt)) hv hw hid

theorem nodup_keys (h : Listed cs) : (cs.map Prod.fst).Nodup := by
  refine pairwise_map.mpr (h.sorted.imp fun {v w} hlt heq => hlt.ne ?_)
  rw [entryId, entryId, heq]

theorem cons_inv (h : Listed (v :: cs)) : extractBlockDevId (some v.1) = (true, entryId v) ∧
    (∀ w ∈ cs, entryId v < entryId w) ∧ Listed cs := by
  obtain ⟨hv, hcs⟩ := forall_mem_cons.mp h.accepted
  obtain ⟨hlt, hsorted⟩ := pairwise_cons.mp h.sorted
  exact ⟨hv, hlt, hcs, hsorted⟩

end Listed

variable {blkDevId : Int}

theorem entryId_of_name (hid : 0 ≤ blkDevId ∧ blkDevId < maxBlkDevs)
    {v : Str × Config} (hv : v.1 = getBlockDevNameFromId blkDevId) : entryId v = blkDevId := by
  rw [entryId, hv, extractBlockDevId_name hid.1 hid.2]

/-! ## Paths -/

/-- A list with keys that are no paths -/
def NoDots (cs : List (Str × Config)) : Prop := ∀ key ∈ cs.map Prod.fst, dot ∉ key

theorem not_mem_of_mem_splitOn (path : Str) : ∀ key ∈ path.splitOn dot, dot ∉ key := by
  unfold List.splitOn
  induction path with
  | nil => simp
  | cons c path ih =>
    rw [splitOnP_cons_eq_if_modifyHead]
    split
    · simpa using ih
    · rename_i hc
      cases hsplit : path.splitOnP (· == dot) with
      | nil => simp
      | cons key keys =>
        rw [hsplit] at ih
        obtain ⟨hkey, hkeys⟩ := forall_mem_cons.mp ih
        have hne : dot ≠ c := fun h => hc (by simp [h])
        exact forall_mem_cons.mpr ⟨by simp [hne, hkey], hkeys⟩

variable {cs : List (Str × Config)}

theorem noDots_addChild (h : NoDots cs) (v : Str × Config) : NoDots (addChild cs v) := by
  have hkeys := not_mem_of_mem_splitOn v.1
  unfold addChild
  cases hsplit : v.1.splitOn dot with
  | nil => exact h
  | cons key path =>
    have hkey := hkeys key (by simp [hsplit])
    have happend (u : Config) : NoDots (cs ++ [(key, u)]) := by
      rw [NoDots, map_append, forall_mem_append]
      exact ⟨h, by simpa using hkey⟩
    cases path with
    | nil => exact happend _
    | cons key' path =>
      unfold addPath
      split
      · simpa [NoDots] using h
      · exact happend _

theorem noDots_foldl {new : List (Str × Config)} (h : NoDots new) (cs : List (Str × Config)) :
    NoDots (cs.foldl addChild new) := by
  induction cs generalizing new with
  | nil => exact h
  | cons v cs ih => exact ih (noDots_addChild h v)

theorem addChild_eq_append {v : Str × Config} (h : dot ∉ v.1) (cs : List (Str × Config)) :
    addChild cs v = cs ++ [v] := by
  rw [addChild, splitOn_eq_singleton h]
  rfl

theorem foldl_eq_append (h : ∀ v ∈ cs, dot ∉ v.1)
    (new : List (Str × Config)) : cs.foldl addChild new = new ++ cs := by
  induction cs generalizing new with
  | nil => simp
  | cons v cs ih =>
    obtain ⟨hv, hcs⟩ := forall_mem_cons.mp h
    simp [addChild_eq_append hv, ih hcs]

/-! ## Rebuilding a sorted list -/

/-- The list with the new entry between those with smaller and with larger ids -/
def rebuilt (blkDevId : Int) (new cs : List (Str × Config)) : List (Str × Config) :=
  (cs.filter (blkDevId < entryId ·)).foldl addChild
    (addChild ((cs.filter (entryId · < blkDevId)).foldl addChild new) (newBlkDev blkDevId))

section

variable {cardId cpuId : Nat} {blkDevId : Int} {node : Config} {mem mem' : Memory}
  {cs : List (Str × Config)}

/-- **A name that is in the list ends the loop.** -/
theorem rebuild_found (h : Listed cs) (hid : 0 ≤ blkDevId ∧ blkDevId < maxBlkDevs)
    (hname : getBlockDevNameFromId blkDevId ∈ cs.map Prod.fst) (new : List (Str × Config)) :
    rebuild cardId cpuId blkDevId node false new cs mem = (.error (.returned true), mem) := by
  induction cs generalizing new with
  | nil => cases hname
  | cons v cs ih =>
    obtain ⟨hv, hlt, hcs⟩ := h.cons_inv
    simp only [rebuild, hv]
    by_cases heq : v.1 = getBlockDevNameFromId blkDevId
    · rw [if_pos heq]
      rfl
    · have hname' : getBlockDevNameFromId blkDevId ∈ cs.map Prod.fst := by
        simpa [Ne.symm heq] using hname
      obtain ⟨w, hw, hwname⟩ := mem_map.mp hname'
      rw [if_neg heq, if_pos (entryId_of_name hid hwname ▸ hlt w hw)]
      exact ih hcs hname' _

theorem rebuild_added (h : Listed cs) (hgt : ∀ v ∈ cs, blkDevId < entryId v)
    (hname : getBlockDevNameFromId blkDevId ∉ cs.map Prod.fst) (new : List (Str × Config)) :
    rebuild cardId cpuId blkDevId node true new cs mem = (.ok (cs.foldl addChild new), mem) := by
  induction cs generalizing new with
  | nil => rfl
  | cons v cs ih =>
    obtain ⟨hv, -, hcs⟩ := h.cons_inv
    obtain ⟨hid, hgt⟩ := forall_mem_cons.mp hgt
    obtain ⟨heq, hname⟩ := not_or.mp (mem_cons.not.mp hname)
    simp only [rebuild, hv, if_neg (Ne.symm heq), if_neg hid.not_gt, if_pos hid]
    exact ih hcs hgt hname _

/-- **Another name is added at its place**, and the flags are set from the old list. -/
theorem rebuild_new (h : Listed cs)
    (hname : getBlockDevNameFromId blkDevId ∉ cs.map Prod.fst)
    (hparse : parseBlkDevs cardId cpuId node mem = (true, mem')) (new : List (Str × Config)) :
    rebuild cardId cpuId blkDevId node false new cs mem =
      (.ok (rebuilt blkDevId new cs), mem') := by
  induction cs generalizing new with
  | nil => simp [rebuild, addNew, hparse, rebuilt]
  | cons v cs ih =>
    obtain ⟨hv, hlt, hcs⟩ := h.cons_inv
    obtain ⟨heq, hname⟩ := not_or.mp (mem_cons.not.mp hname)
    simp only [rebuild, hv, if_neg (Ne.symm heq)]
    rcases lt_trichotomy (entryId v) blkDevId with hsmall | hsame | hlarge
    · simp [hsmall, ih hcs hname, rebuilt, hsmall.not_gt]
    · simp [hsame, ih hcs hname, rebuilt]
    · -- the entries from here on have larger ids
      have hgt : ∀ w ∈ cs, blkDevId < entryId w := fun w hw => hlarge.trans (hlt w hw)
      have hnone : cs.filter (entryId · < blkDevId) = [] := by
        simpa using fun w hw => (hgt w hw).le
      have hall : cs.filter (blkDevId < entryId ·) = cs := by simpa using hgt
      simp [hlarge, hlarge.not_gt, run_bind, addNew, hparse, rebuilt, hnone, hall,
        rebuild_added hcs hgt hname]

end

/-! ## Flags -/

theorem parseBlkDev_exist (cs : List (Str × Config)) (dev : BlkData) :
    (parseBlkDev cs dev).exist = dev.exist := by
  induction cs generalizing dev with
  | nil => rfl
  | cons v cs ih =>
    unfold parseBlkDev
    split
    · rw [ih, trySetDataField]
      split <;> rfl
    · exact ih dev

theorem parseEntries_exist (cardId cpuId : Nat) (cs : List (Str × Config)) (mem : Memory)
    (id : Int) : (parseEntries cardId cpuId cs mem cardId cpuId id).exist = true ↔
      (mem cardId cpuId id).exist = true ∨ ∃ v ∈ cs, extractBlockDevId (some v.1) = (true, id) := by
  induction cs generalizing mem with
  | nil => simp [parseEntries]
  | cons v cs ih =>
    unfold parseEntries
    rcases hv : extractBlockDevId (some v.1) with ⟨_ | _, id'⟩
    · simp [ih, hv]
    · by_cases hid : id = id'
      · subst hid
        simp [ih, hv, parseBlkDev_exist]
      · simp [ih, hv, hid, Ne.symm hid]

/-- A negative id is no index for `blk_dev_exist`. -/
theorem blkDevExist_iff {s : Str} {id : Int} (h : extractBlockDevId (some s) = (true, id))
    (mem : Memory) (cardId cpuId : Nat) :
    blkDevExist mem cardId cpuId (BitVec.ofInt 32 id) = true ↔
      0 ≤ id ∧ (mem cardId cpuId id).exist = true := by
  obtain ⟨t, n, -, -, hvalue, hlt⟩ := extractBlockDevId_eq_true_iff.mp h
  generalize BitVec.ofInt 32 n.value = value at hvalue
  have hcases := BitVec.toInt_eq_toNat_cond value
  have hbound := value.isLt
  rw [← hvalue, BitVec.ofInt_toInt, blkDevExist, Bool.and_eq_true, decide_eq_true_eq]
  rw [← hvalue] at hlt
  unfold maxBlkDevs at hlt ⊢
  split at hcases
  · simp [hcases]
    omega
  · exact iff_of_false (by omega) (by omega)

/-! ## Complete lists -/

/-- The list `u'` is sorted, has the new entry once and all entries of `u`, and all of its devices
exist. -/
structure Complete (cardId cpuId : Nat) (blkDevId : Int) (u u' : Config) (mem : Memory) : Prop where
  listed : Listed u'.children
  once : (u'.children.map Prod.fst).count (getBlockDevNameFromId blkDevId) = 1
  kept : ∀ v ∈ u.children, v ∈ u'.children
  exist : ∀ v ∈ u'.children, blkDevExist mem cardId cpuId (BitVec.ofInt 32 (entryId v))

theorem noDots_rebuilt (blkDevId : Int) (cs : List (Str × Config)) :
    NoDots (rebuilt blkDevId [] cs) := by
  have hnil : NoDots [] := forall_mem_nil _
  exact noDots_foldl (noDots_addChild (noDots_foldl hnil _) _) _

theorem blkDevName_noDots (hid : 0 ≤ blkDevId ∧ blkDevId < maxBlkDevs) :
    dot ∉ getBlockDevNameFromId blkDevId := by
  obtain ⟨hnonneg, hlt⟩ := hid
  unfold maxBlkDevs at hlt
  interval_cases blkDevId <;> decide +kernel

theorem rebuilt_eq (h : NoDots cs)
    (hname : dot ∉ getBlockDevNameFromId blkDevId) :
    rebuilt blkDevId [] cs = cs.filter (entryId · < blkDevId) ++
      newBlkDev blkDevId :: cs.filter (blkDevId < entryId ·) := by
  have hcs : ∀ v ∈ cs, dot ∉ v.1 := fun v hv => h v.1 (mem_map_of_mem hv)
  rw [rebuilt, foldl_eq_append fun v hv => hcs v (mem_of_mem_filter hv),
    foldl_eq_append fun v hv => hcs v (mem_of_mem_filter hv), addChild_eq_append hname]
  simp

section

variable {cardId cpuId : Nat} {blkDevId : Int} {u : Config} {mem : Memory}

theorem complete_new (h : Listed u.children) (hid : 0 ≤ blkDevId ∧ blkDevId < maxBlkDevs)
    (hname : getBlockDevNameFromId blkDevId ∉ u.children.map Prod.fst) :
    Complete cardId cpuId blkDevId u (.node [] (rebuilt blkDevId [] u.children))
        (parseEntries cardId cpuId u.children mem) ↔
      (∀ v ∈ u.children, 0 ≤ entryId v ∧ entryId v ≠ blkDevId) ∧ NoDots u.children ∧
        blkDevExist mem cardId cpuId (BitVec.ofInt 32 blkDevId) := by
  have hread := extractBlockDevId_name hid.1 hid.2
  have hnew : entryId (newBlkDev blkDevId) = blkDevId := entryId_of_name hid rfl
  constructor
  · intro ⟨hlisted, hcount, hkept, hexist⟩
    obtain ⟨w, hw, hwname⟩ := mem_map.mp (count_pos_iff.mp (hcount ▸ Nat.one_pos))
    have hwid := entryId_of_name hid hwname
    have hold : ∀ v ∈ u.children, 0 ≤ entryId v ∧ entryId v ≠ blkDevId := by
      intro v hv
      refine ⟨((blkDevExist_iff (h.accepted v hv) _ _ _).mp (hexist v (hkept v hv))).1, ?_⟩
      intro hsame
      have heq := hlisted.eq_of_id (hkept v hv) hw (hsame.trans hwid.symm)
      exact hname (mem_map.mpr ⟨v, hv, heq ▸ hwname⟩)
    refine ⟨hold, fun key hkey => ?_, ?_⟩
    · obtain ⟨v, hv, rfl⟩ := mem_map.mp hkey
      exact noDots_rebuilt blkDevId u.children v.1 (mem_map_of_mem (hkept v hv))
    · have hflag := hwid ▸ hexist w hw
      rw [blkDevExist_iff hread, parseEntries_exist] at hflag
      refine (blkDevExist_iff hread _ _ _).mpr ⟨hid.1, hflag.2.resolve_right ?_⟩
      rintro ⟨v, hv, hvid⟩
      exact (hold v hv).2 (by rw [entryId, hvid])
  · rintro ⟨hold, hdots, hexist⟩
    have hsplit := rebuilt_eq hdots (blkDevName_noDots hid)
    have hmem : ∀ v, v ∈ rebuilt blkDevId [] u.children ↔
        v ∈ u.children ∨ v = newBlkDev blkDevId := by
      intro v
      have hne (hv : v ∈ u.children) := lt_or_gt_of_ne (hold v hv).2
      simp only [hsplit, mem_append, mem_cons, mem_filter, decide_eq_true_eq]
      tauto
    have hlisted : Listed (rebuilt blkDevId [] u.children) := by
      refine ⟨fun v hv => ?_, ?_⟩
      · obtain hv | rfl := (hmem v).mp hv
        · exact h.accepted v hv
        · rw [hnew]
          exact hread
      · rw [hsplit, pairwise_append, pairwise_cons, hnew]
        refine ⟨h.sorted.filter _, ⟨by simp, h.sorted.filter _⟩, ?_⟩
        simp only [mem_filter, mem_cons, decide_eq_true_eq]
        rintro v ⟨-, hv⟩ w (rfl | ⟨-, hw⟩)
        · rwa [hnew]
        · exact hv.trans hw
    refine ⟨hlisted, ?_, fun v hv => (hmem v).mpr (.inl hv), fun v hv => ?_⟩
    · exact count_eq_one_of_mem hlisted.nodup_keys
        (mem_map_of_mem ((hmem (newBlkDev blkDevId)).mpr (.inr rfl)))
    · obtain hv | rfl := (hmem v).mp hv
      · rw [blkDevExist_iff (h.accepted v hv), parseEntries_exist]
        exact ⟨(hold v hv).1, .inr ⟨v, hv, h.accepted v hv⟩⟩
      · rw [hnew, blkDevExist_iff hread, parseEntries_exist]
        exact ((blkDevExist_iff hread _ _ _).mp hexist).imp_right .inl

end

/-! ## The call -/

/-- What the rebuilding of a list does, where it is the first list of its cpu -/
def AddsEntry (cardId cpuId : Nat) (blkDevId : Int) (u : Config) (mem : Memory)
    (r : Except Stop Config) (mem' : Memory) : Prop :=
  ∃ node, node.getChild (ascii "block-devs") = some u ∧
    addEntry cardId cpuId blkDevId node u mem = (r, mem')

theorem addBlkDev_once (cardId cpuId : Nat) (blkDevId : Int) :
    Once (· ≠ .returned true) (AddsEntry cardId cpuId blkDevId) (devsPlace cardId cpuId)
      (forCpu .thrown cardId cpuId
        (forKey (ascii "block-devs") (addEntry cardId cpuId blkDevId))) := by
  have hnode (key : Str) (id : Nat) (v : Str × Config) (mem : Memory) :
      Fails (· ≠ .returned true) (isNode Stop.thrown key id v mem) ∨
        isNode Stop.thrown key id v mem = (.ok (hasId key id v), mem) := by
    obtain hok | ⟨e, herror⟩ := isNode_cases Stop.thrown key id v mem
    · exact .inr hok
    · exact .inl ⟨_, _, herror, nofun⟩
  have hdevs : Once (· ≠ .returned true) (AddsEntry cardId cpuId blkDevId)
      [.every (hasKey (ascii "block-devs"))]
      (forKey (ascii "block-devs") (addEntry cardId cpuId blkDevId)) := by
    refine forNodes_once (fun v mem => .inr rfl) (fun _ _ _ h => by cases h) ?_
    intro t pre v post mem u hpre hv hu
    obtain rfl : v.2 = u := by simpa [nodes] using hu
    rcases hrun : addEntry cardId cpuId blkDevId (t.setChildren (pre ++ v :: post)) v.2 mem
      with ⟨r, mem'⟩
    refine .inr ⟨r, mem', ?_, t.setChildren (pre ++ v :: post), ?_, hrun⟩
    · cases r <;> rfl
    · have hnone : pre.find? (fun w => w.1 = ascii "block-devs") = none := by
        simpa [Clear, hasKey, nodes] using hpre
      have hkey : v.1 = ascii "block-devs" := by simpa [hasKey] using hv
      simp [getChild, List.find?_append, hnone, hkey]
  have hcpu := forNodes_once (hnode (ascii "cpu") cpuId) (fun _ => hdevs.none)
    fun _ _ v _ mem u _ _ => hdevs.one v.2 mem u
  exact forNodes_once (hnode (ascii "card") cardId) (fun _ => hcpu.none)
    fun _ _ v _ mem u _ _ => hcpu.one v.2 mem u

theorem AddsEntry.cases {cardId cpuId : Nat} {u : Config} {mem mem' : Memory}
    {r : Except Stop Config} (h : AddsEntry cardId cpuId blkDevId u mem r mem')
    (hlisted : Listed u.children) (hid : 0 ≤ blkDevId ∧ blkDevId < maxBlkDevs) :
    (getBlockDevNameFromId blkDevId ∈ u.children.map Prod.fst ∧
      r = .error (.returned true) ∧ mem' = mem) ∨
    (getBlockDevNameFromId blkDevId ∉ u.children.map Prod.fst ∧
      r = .ok (.node [] (rebuilt blkDevId [] u.children)) ∧
      mem' = parseEntries cardId cpuId u.children mem) := by
  obtain ⟨node, hnode, hadd⟩ := h
  rw [addEntry, run_bind] at hadd
  by_cases hname : getBlockDevNameFromId blkDevId ∈ u.children.map Prod.fst
  · rw [rebuild_found hlisted hid hname] at hadd
    obtain ⟨rfl, rfl⟩ := Prod.mk.inj hadd
    exact .inl ⟨hname, rfl, rfl⟩
  · have hparse : parseBlkDevs cardId cpuId node mem =
        (true, parseEntries cardId cpuId u.children mem) := by rw [parseBlkDevs, hnode]
    rw [rebuild_new hlisted hname hparse] at hadd
    obtain ⟨rfl, rfl⟩ := Prod.mk.inj hadd
    exact .inr ⟨hname, rfl, rfl⟩

/-- **A call that returns true is complete exactly if the entry was there and all devices of the
list existed, or if the device existed though it has no entry, and each name of the list is no path
and has an id that is no other's and not negative.** -/
theorem addBlkDev_complete_iff (env : Env) (cardId cpuId : Nat) (blkDevId : Int) (st : Store)
    (u : Config) (hid : 0 ≤ blkDevId ∧ blkDevId < maxBlkDevs)
    (hplace : nodes (devsPlace cardId cpuId) st.file = [u]) (hlisted : Listed u.children)
    (h : (addBlkDevFields env cardId cpuId blkDevId st).1 = .returned true) :
    (∃ u', nodes (devsPlace cardId cpuId)
        (addBlkDevFields env cardId cpuId blkDevId st).2.file = [u'] ∧
      Complete cardId cpuId blkDevId u u' (addBlkDevFields env cardId cpuId blkDevId st).2.mem) ↔
    (getBlockDevNameFromId blkDevId ∈ u.children.map Prod.fst ∧
      ∀ v ∈ u.children, blkDevExist st.mem cardId cpuId (BitVec.ofInt 32 (entryId v))) ∨
    ((∀ v ∈ u.children, 0 ≤ entryId v ∧ entryId v ≠ blkDevId) ∧ NoDots u.children ∧
      blkDevExist st.mem cardId cpuId (BitVec.ofInt 32 blkDevId)) := by
  unfold addBlkDevFields at h ⊢
  have hone := (addBlkDev_once cardId cpuId blkDevId).one st.file st.mem u hplace
  have hstable (u' : Config) : Stable (devsPlace cardId cpuId) fun _ => u' := by
    refine stable_cpuPlace ?_ (getId_alter_blockDevs _ _) cardId cpuId
    exact ⟨fun _ => rfl, trivial⟩
  obtain ⟨-, ⟨root', mem', hedit, hend⟩ | ⟨e, mem', hedit, rfl, hend⟩⟩ := withFile_returned_true h
  · -- the rebuilt list is saved
    rw [hedit] at hone
    obtain ⟨e, _, hfail, -⟩ | ⟨r, _, hr, hadds⟩ := hone
    · cases hfail
    · obtain ⟨-, rfl, -⟩ | ⟨hname, rfl, rfl⟩ := hadds.cases hlisted hid
      · cases hr
      · obtain ⟨hroot, rfl⟩ := Prod.mk.inj hr
        obtain rfl := Except.ok.inj hroot
        rw [hend, or_iff_right fun hfound => hname hfound.1, ← complete_new hlisted hid hname]
        simp [nodes_alter (hstable _), hplace]
  · -- the loop ended at the entry
    rw [hedit] at hone
    obtain ⟨e, _, hfail, hbad⟩ | ⟨r, _, hr, hadds⟩ := hone
    · cases hfail
      exact absurd rfl hbad
    · obtain ⟨hname, rfl, rfl⟩ | ⟨-, rfl, -⟩ := hadds.cases hlisted hid
      · obtain ⟨-, rfl⟩ := Prod.mk.inj hr
        obtain ⟨w, hw, hwname⟩ := List.mem_map.mp hname
        have hno : ¬ ∀ v ∈ u.children, 0 ≤ entryId v ∧ entryId v ≠ blkDevId :=
          fun hall => (hall w hw).2 (entryId_of_name hid hwname)
        rw [hend, or_iff_left fun hnew => hno hnew.1, and_iff_right hname]
        simp only [hplace, List.cons.injEq, and_true, exists_eq_left']
        exact ⟨Complete.exist, fun hexist => ⟨hlisted,
          List.count_eq_one_of_mem hlisted.nodup_keys hname, fun _ => id, hexist⟩⟩
      · cases hr

/-- A file with the device 0, and members with some devices -/
def oneDevice (exist : Int → Bool) : Store where
  file := (oneCpu [(ascii "block-devs", node [] [newBlkDev 0])]).file
  mem := fun _ _ id => ⟨fun _ => [], exist id⟩

/-- The device 1 is added where it exists already. -/
theorem addBlkDev_complete_oneDevice :
    let result := addBlkDevFields ⟨true, true, true⟩ 0 0 1 (oneDevice fun _ => true)
    ∃ u', nodes (devsPlace 0 0) result.2.file = [u'] ∧
      Complete 0 0 1 (node [] [newBlkDev 0]) u' result.2.mem := by
  refine (addBlkDev_complete_iff _ 0 0 1 _ (node [] [newBlkDev 0]) (by decide) rfl ?_
    (by decide +kernel)).mpr (.inr ?_)
  · exact ⟨by decide +kernel, by simp [children]⟩
  · exact ⟨by decide +kernel, by unfold NoDots; decide +kernel, by decide +kernel⟩

/-- After a load, the device 1 is added to the sorted list of the file, but `blk_dev_exist` does not
find it. -/
theorem newDevice_not_found :
    let result := addBlkDevFields ⟨true, true, true⟩ 0 0 1 (oneDevice (· = 0))
    nodes (devsPlace 0 0) (oneDevice (· = 0)).file = [node [] [newBlkDev 0]] ∧
      Listed [newBlkDev 0] ∧ result.1 = .returned true ∧
      ∀ u', nodes (devsPlace 0 0) result.2.file = [u'] →
        ¬ Complete 0 0 1 (node [] [newBlkDev 0]) u' result.2.mem := by
  refine ⟨rfl, ⟨by decide +kernel, by simp⟩, by decide +kernel, fun u' _ hcomplete => ?_⟩
  have hmem := List.count_pos_iff.mp (hcomplete.once ▸ Nat.one_pos)
  obtain ⟨v, hv, hname⟩ := List.mem_map.mp hmem
  have hflag := hcomplete.exist v hv
  rw [entryId_of_name (by decide) hname] at hflag
  exact absurd hflag (by decide +kernel)

end Vcass.VcaConfig
