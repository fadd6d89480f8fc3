import Mathlib.Data.List.Nodup
import Tlm.Vm.Executable

set_option autoImplicit false

namespace Tlm.Vm

open Cpp

variable {Byte Device Tensor : Type}

-- What the compiler makes: names and indexes correspond, and the tables of constants fit together.
structure Executable.Consistent (exec : Executable Device Tensor) : Prop where
  distinct : (exec.functions.map VMFunction.name).Nodup
  globals : exec.globalMap.Perm (exec.functions.map VMFunction.name).zipIdx
  primitives : ∃ names : List String, names.Nodup ∧ exec.primitiveMap.Perm names.zipIdx
  strings : ∀ entry ∈ exec.opAttrs, ∀ attr ∈ entry.2, ∃ value, attr.2 = .string value
  host : 0 ≤ exec.hostDeviceIndex ∧ exec.hostDeviceIndex < exec.virtualDevices.length
  named : exec.table.length = exec.constants.length
  bound : ∀ entry ∈ exec.table, entry.2.isSome = entry.1.isNone
  placed : exec.constDeviceIndexes.length = exec.constants.length

def IsInt64 (index : Index) : Prop :=
  -2 ^ 63 ≤ index ∧ index < 2 ^ 63

instance (index : Index) : Decidable (IsInt64 index) :=
  inferInstanceAs (Decidable (_ ∧ _))

-- The numbers are of the types that the stream has for them.
structure Executable.Typed (exec : Executable Device Tensor) : Prop where
  host : exec.hostDeviceIndex < 2 ^ 31
  constants : exec.constants.length < 2 ^ 64
  functions : exec.functions.length < 2 ^ 64
  constDevices : ∀ index ∈ exec.constDeviceIndexes, IsInt64 index
  attrs : ∀ entry ∈ exec.opAttrs, entry.1 < 2 ^ 64
  paramDevices : ∀ func ∈ exec.functions, ∀ index ∈ func.paramDeviceIndexes, IsInt64 index
  fields : ∀ func ∈ exec.functions, ∀ instr ∈ func.instructions,
    ∀ index ∈ (serializeInstruction instr).fields, IsInt64 index

structure Executable.Same (left right : Executable Device Tensor) : Prop where
  virtualDevices : left.virtualDevices = right.virtualDevices
  hostDeviceIndex : left.hostDeviceIndex = right.hostDeviceIndex
  constants : left.constants = right.constants
  table : left.table = right.table
  globalMap : left.globalMap.Perm right.globalMap
  primitiveMap : left.primitiveMap.Perm right.primitiveMap
  opAttrs : List.Forall₂ (fun l r => l.1 = r.1 ∧ l.2.Perm r.2) left.opAttrs right.opAttrs
  functions : left.functions = right.functions
  constDeviceIndexes : left.constDeviceIndexes = right.constDeviceIndexes

theorem foldl_insertIndex (entries map : List (String × Nat))
    (distinct : ((map ++ entries).map Prod.fst).Nodup) : entries.foldl insertIndex map = map ++ entries := by
  induction entries generalizing map with
  | nil => simp
  | cons entry entries ih =>
    have fresh : map.any (·.1 = entry.1) = false := by
      simp only [List.map_append, List.map_cons, List.nodup_append, List.mem_cons] at distinct
      simpa using fun name index member same =>
        distinct.2.2 name (List.mem_map_of_mem (f := Prod.fst) member) entry.1 (Or.inl rfl) same
    have := ih (map ++ [entry]) (by simpa using distinct)
    simpa [insertIndex, fresh] using this

variable {names : List String}

theorem indexMap_eq (distinct : names.Nodup) : indexMap names = names.zipIdx := by
  simpa [indexMap] using foldl_insertIndex names.zipIdx [] (by simpa using distinct)

theorem zipIdx_ascending {α : Type} (names : List α) (start : Nat) :
    (names.zipIdx start).Pairwise fun a b => a.2 < b.2 := by
  induction names generalizing start with
  | nil => simp
  | cons name names ih =>
    simp only [List.zipIdx_cons, List.pairwise_cons, Prod.forall, List.mem_zipIdx_iff_le_and_getElem?_sub]
    exact ⟨fun _ _ later => later.1, ih _⟩

variable {map : List (String × Nat)}

theorem sort_indexes (sorting : Sorting) (same : map.Perm names.zipIdx) :
    (sorting.sort (fun a b => decide ((a.2 : Int) < b.2)) map).map Prod.fst = names := by
  have perm := (sorting.perm (fun a b => decide ((a.2 : Int) < b.2)) map).trans same
  have sorted := sorting.sorted map (strictWeak_key fun a : String × Nat => a.2)
  have ordered : sorting.sort (fun a b => decide ((a.2 : Int) < b.2)) map = names.zipIdx := by
    have strict (a b : String × Nat) (first : a ∈ sorting.sort (fun a b => decide ((a.2 : Int) < b.2)) map)
        (second : b ∈ names.zipIdx) (below : a.2 ≤ b.2) (above : b.2 ≤ a.2) : a = b := by
      have left := List.mem_zipIdx_iff_getElem?.1 (perm.mem_iff.1 first)
      have right := List.mem_zipIdx_iff_getElem?.1 second
      have level : a.2 = b.2 := by omega
      rw [level, right, Option.some.injEq] at left
      exact Prod.ext left.symm level
    exact perm.eq_of_pairwise strict (by simpa using sorted) ((zipIdx_ascending names 0).imp Nat.le_of_lt)
  rw [ordered, List.zipIdx_map_fst]

structure Placed (past : List (String × Nat)) (names : List String) : Prop where
  there : ∀ entry ∈ past, names[entry.2]? = some entry.1
  needed : ∀ i < names.length, ∃ entry ∈ past, i ≤ entry.2

variable {past : List (String × Nat)}

theorem placeName_placed {entry : String × Nat} (placed : Placed past names)
    (fresh : ∀ other ∈ past, other.2 ≠ entry.2) :
    Placed (past ++ [entry]) (placeName names entry) where
  there := by
    intro other member
    rw [List.mem_append, List.mem_singleton] at member
    obtain member | rfl := member
    · have kept := placed.there other member
      have small : other.2 < names.length := (List.getElem?_eq_some_iff.1 kept).1
      rw [placeName, List.getElem?_set_ne (fresh other member).symm, List.getElem?_append_left small, kept]
    · rw [placeName, List.getElem?_set_self]
      simp
      omega
  needed := by
    intro i inside
    simp only [placeName, List.length_set, List.length_append, List.length_replicate] at inside
    by_cases before : i < names.length
    · obtain ⟨other, member, high⟩ := placed.needed i before
      exact ⟨other, List.mem_append_left _ member, high⟩
    · exact ⟨entry, by simp, by omega⟩

theorem foldl_placeName (entries : List (String × Nat)) (placed : Placed past names)
    (distinct : ((past ++ entries).map Prod.snd).Nodup) :
    Placed (past ++ entries) (entries.foldl placeName names) := by
  induction entries generalizing past names with
  | nil => simpa using placed
  | cons entry entries ih =>
    have fresh : ∀ other ∈ past, other.2 ≠ entry.2 := by
      simp only [List.map_append, List.map_cons, List.nodup_append, List.mem_cons] at distinct
      exact fun other member =>
        distinct.2.2 other.2 (List.mem_map_of_mem member) entry.2 (Or.inl rfl)
    simpa using ih (placeName_placed placed fresh) (by simpa using distinct)

theorem placeName_indexes (same : map.Perm names.zipIdx) : map.foldl placeName [] = names := by
  have distinct : (map.map Prod.snd).Nodup :=
    (same.map Prod.snd).nodup_iff.2 (List.pairwise_map.2 ((zipIdx_ascending names 0).imp Nat.ne_of_lt))
  have placed : Placed map (map.foldl placeName []) := by
    have start : Placed [] [] := ⟨by simp, by simp⟩
    simpa using foldl_placeName map start (by simpa using distinct)
  have fits (i : Nat) (inside : i < (map.foldl placeName []).length) : i < names.length := by
    obtain ⟨entry, member, high⟩ := placed.needed i inside
    have := (List.getElem?_eq_some_iff.1 (List.mem_zipIdx_iff_getElem?.1 (same.mem_iff.1 member))).1
    omega
  refine List.ext_getElem? fun i => ?_
  cases there : names[i]? with
  | some name => exact placed.there (name, i) (same.mem_iff.2 (List.mem_zipIdx_iff_getElem?.2 there))
  | none =>
    have := mt (fits i) (Nat.not_lt.2 (List.getElem?_eq_none_iff.1 there))
    exact List.getElem?_eq_none (Nat.not_lt.1 this)

theorem find_indexMap {name : String} {i : Nat} (distinct : names.Nodup) (there : names[i]? = some name) :
    (indexMap names).find? (·.1 = name) = some (name, i) := by
  rw [indexMap_eq distinct]
  cases result : names.zipIdx.find? (·.1 = name) with
  | none =>
    have absent := List.find?_eq_none.1 result (name, i) (List.mem_zipIdx_iff_getElem?.2 there)
    simp at absent
  | some entry =>
    have same : entry.1 = name := by simpa using List.find?_some result
    have found := List.mem_zipIdx_iff_getElem?.1 (List.mem_of_find?_eq_some result)
    obtain ⟨inside, value⟩ := List.getElem?_eq_some_iff.1 found
    have index : entry.2 = i := (List.getElem?_inj inside distinct).1 (by rw [found, there, same])
    rw [← same, ← index]

theorem foldlM_placeFunction {globalMap : List (String × Nat)} (todo : List VMFunction)
    (before : List VMFunction) (blank : VMFunction) (room : before.length + todo.length ≤ globalMap.length)
    (index : ∀ i func, todo[i]? = some func →
      globalMap.find? (·.1 = func.name) = some (func.name, before.length + i)) :
    todo.foldlM (placeFunction globalMap) (before ++ List.replicate todo.length blank) =
      .ok (before ++ todo) := by
  induction todo generalizing before with
  | nil => simp
  | cons func todo ih =>
    have place : placeFunction globalMap (before ++ List.replicate (todo.length + 1) blank) func =
        .ok ((before ++ [func]) ++ List.replicate todo.length blank) := by
      have at_hand := index 0 func rfl
      have fits : before.length ≤ globalMap.length := by omega
      simp [placeFunction, at_hand, fits, List.replicate_succ]
    rw [List.foldlM_cons, List.length_cons, place]
    have room' : (before ++ [func]).length + todo.length ≤ globalMap.length := by
      simp only [List.length_append, List.length_cons, List.length_nil] at room ⊢
      omega
    have rest := ih (before ++ [func]) room' fun i later there => by
      rw [index (i + 1) later there, List.length_append, List.length_singleton, Nat.add_right_comm]
      rfl
    simpa using rest

section

variable (dmlc : Dmlc Byte Device Tensor)

theorem stoll_toString (z : Int) : stoll (toString z) = .ok z := by
  obtain ⟨numeral, scanned, value⟩ := scan_toString z
  rw [stoll, scanned]
  exact congrArg Except.ok value

theorem reads_size {size : Nat} (fits : size < 2 ^ 64) : Reads dmlc.readSize (dmlc.writeSize size) size := by
  have same : (UInt64.ofNat size).toNat = size := UInt64.toNat_ofNat_of_lt' fits
  rw [Dmlc.readSize, Dmlc.writeSize]
  simpa [same] using reads_map UInt64.toNat (dmlc.uint64.inverse (.ofNat size))

theorem reads_indexes {indexes : List Index} (fits : ∀ index ∈ indexes, IsInt64 index) :
    Reads dmlc.readIndexes (dmlc.writeIndexes indexes) indexes := by
  have same : (indexes.map Int64.ofInt).map Int64.toInt = indexes := by
    rw [List.map_map]
    refine (List.map_congr_left fun index member => ?_).trans (List.map_id indexes)
    exact Int64.toInt_ofInt_of_le (fits index member).1 (fits index member).2
  rw [Dmlc.readIndexes, Dmlc.writeIndexes]
  nth_rewrite 2 [← same]
  exact reads_map _ (dmlc.indexes.inverse _)

theorem hash_isInt64 (instr : VMInstructionSerializer) : IsInt64 instr.hash :=
  ⟨Int64.le_toInt _, Int64.toInt_lt _⟩

theorem opcode_isInt64 (instr : Instruction) : IsInt64 (serializeInstruction instr).opcode := by
  cases instr <;> simp [IsInt64, serializeInstruction]

theorem reads_instruction {instr : Instruction}
    (fits : ∀ index ∈ (serializeInstruction instr).fields, IsInt64 index) :
    Reads (loadInstruction dmlc) ((serializeInstruction instr).save dmlc) instr := by
  rw [← List.append_nil ((serializeInstruction instr).save dmlc)]
  refine reads_bind (reads_indexes dmlc ?_) (reads_lift (a := ()) (by simp) ?_)
  · simpa [hash_isInt64, opcode_isInt64] using fits
  · intro rest
    simpa using deserializeInstruction_serializeInstruction instr

theorem reads_function {func : VMFunction} (devices : ∀ index ∈ func.paramDeviceIndexes, IsInt64 index)
    (fits : ∀ instr ∈ func.instructions, ∀ index ∈ (serializeInstruction instr).fields, IsInt64 index) :
    Reads (loadFunction dmlc) (saveFunction dmlc func) func := by
  have instructions : Reads (readMany (loadInstruction dmlc) func.instructions.length)
      (func.instructions.flatMap fun instr => (serializeInstruction instr).save dmlc) func.instructions := by
    simpa using reads_many fun instr member => reads_instruction dmlc (fits instr member)
  refine reads_bind (dmlc.strings.inverse _) ?_
  refine reads_lift (stoll_toString _) (reads_lift (stoll_toString _) ?_)
  refine reads_bind (dmlc.strings.inverse _) (reads_bind (reads_indexes dmlc devices) ?_)
  simpa [func.paired] using reads_map (fun instructions => { func with instructions }) instructions

variable {exec : Executable Device Tensor}

theorem reads_codeSection (distinct : (exec.functions.map VMFunction.name).Nodup) (typed : exec.Typed) :
    Reads (loadCodeSection dmlc (indexMap (exec.functions.map VMFunction.name)))
      (saveCodeSection dmlc exec) exec.functions := by
  have loaded : Reads (readMany (loadFunction dmlc) exec.functions.length)
      (exec.functions.flatMap (saveFunction dmlc)) exec.functions := by
    simpa using reads_many fun func member =>
      reads_function dmlc (typed.paramDevices func member) (typed.fields func member)
  have room : ([] : List VMFunction).length + exec.functions.length ≤
      (indexMap (exec.functions.map VMFunction.name)).length := by
    simp [indexMap_eq distinct]
  have placed := foldlM_placeFunction exec.functions [] ⟨"", [], [], 0, [], rfl⟩ room fun i func there => by
    have name : (exec.functions.map VMFunction.name)[i]? = some func.name := by
      simp [there]
    simpa using find_indexMap distinct name
  refine reads_bind (reads_size dmlc typed.functions) ?_
  rw [← List.append_nil (exec.functions.flatMap (saveFunction dmlc))]
  refine reads_bind loaded fun rest => ?_
  simpa using placed

theorem reads_header (version : String) : Reads (loadHeader dmlc version) (saveHeader dmlc version) () := by
  refine reads_bind (dmlc.uint64.inverse _) (reads_lift (a := ()) (by simp) ?_)
  rw [← List.append_nil (dmlc.string.write version)]
  refine reads_bind (dmlc.string.inverse _) fun rest => ?_
  simp

theorem reads_virtualDevicesSection
    (host : 0 ≤ exec.hostDeviceIndex ∧ exec.hostDeviceIndex < exec.virtualDevices.length) (typed : exec.Typed) :
    Reads (loadVirtualDevicesSection dmlc) (saveVirtualDevicesSection dmlc exec)
      (exec.virtualDevices, exec.hostDeviceIndex) := by
  have same : (Int32.ofInt exec.hostDeviceIndex).toInt = exec.hostDeviceIndex :=
    Int32.toInt_ofInt_of_le (by omega) typed.host
  refine reads_bind (dmlc.devices.inverse _) ?_
  rw [← List.append_nil (dmlc.int.write _)]
  refine reads_bind (dmlc.int.inverse _) ?_
  rw [same]
  exact reads_lift (a := ()) (by simpa using host) (reads_pure _)

theorem reads_constant {entry : Option Tensor × Option String} (bound : entry.2.isSome = entry.1.isNone) :
    ∃ bytes, saveConstant dmlc entry = .ok bytes ∧ Reads (loadConstant dmlc) bytes entry := by
  match entry, bound with
  | (some tensor, none), _ =>
    exact ⟨_, rfl, reads_bind (dmlc.uint32.inverse _) (reads_map _ (dmlc.tensor.inverse _))⟩
  | (none, some name), _ =>
    exact ⟨_, rfl, reads_bind (dmlc.uint32.inverse _) (reads_map _ (dmlc.string.inverse _))⟩

theorem reads_constants {table : List (Option Tensor × Option String)}
    (bound : ∀ entry ∈ table, entry.2.isSome = entry.1.isNone) :
    ∃ pieces, table.mapM (saveConstant dmlc) = .ok pieces ∧
      Reads (readMany (loadConstant dmlc) table.length) pieces.flatten table := by
  induction table with
  | nil => exact ⟨[], rfl, reads_pure _⟩
  | cons entry table ih =>
    obtain ⟨first, later⟩ := List.forall_mem_cons.1 bound
    obtain ⟨bytes, saved, loaded⟩ := reads_constant dmlc first
    obtain ⟨pieces, savedRest, loadedRest⟩ := ih later
    refine ⟨bytes :: pieces, by simp [saved, savedRest], ?_⟩
    exact reads_bind loaded (reads_map _ loadedRest)

theorem reads_constantSection (consistent : exec.Consistent) (typed : exec.Typed) :
    ∃ bytes, saveConstantSection dmlc exec = .ok bytes ∧
      Reads (loadConstantSection dmlc) bytes (exec.table, exec.constDeviceIndexes) := by
  obtain ⟨pieces, saved, loaded⟩ := reads_constants dmlc consistent.bound
  rw [consistent.named] at loaded
  refine ⟨_, by simp [saveConstantSection, consistent.named, saved]; rfl, ?_⟩
  refine reads_bind (reads_size dmlc typed.constants) (reads_bind loaded ?_)
  rw [← List.append_nil (dmlc.writeIndexes _)]
  exact reads_bind (reads_indexes dmlc typed.constDevices)
    (reads_lift (a := ()) (by simp [consistent.placed]) (reads_pure _))

theorem table_loaded (exec : Executable Device Tensor) (table : List (Option Tensor × Option String)) :
    { exec with
      constants := table.map Prod.fst
      lateBoundConstantNames := if table.any (·.2.isSome) then table.map Prod.snd else [] }.table = table := by
  by_cases late : table.any (·.2.isSome) = true
  · have filled : table ≠ [] := by
      rintro rfl
      simp at late
    simp [Executable.table, late, filled, ← List.zip_of_prod rfl rfl]
  · have none (entry) (member : entry ∈ table) : entry.2 = none := by
      simpa using fun some => late (List.any_eq_true.2 ⟨entry, member, some⟩)
    have names : table.map Prod.snd = (table.map Prod.fst).map fun _ => Option.none := by
      rw [List.map_congr_left none, List.map_map]
      rfl
    simp only [if_neg late]
    exact (List.zip_of_prod rfl names).symm

theorem attrs_loaded (sorting : Sorting) {attrs : List (String × ObjectRef)}
    (strings : ∀ attr ∈ attrs, ∃ value, attr.2 = .string value) :
    (loadedAttrs (savedAttrs sorting attrs)).Perm attrs := by
  refine ((sorting.perm _ _).map _).trans (.of_eq ?_)
  induction attrs with
  | nil => rfl
  | cons attr attrs ih =>
    obtain ⟨⟨value, same⟩, later⟩ := List.forall_mem_cons.1 strings
    obtain ⟨key, _⟩ := attr
    subst same
    simpa using ih later

theorem reads_primitiveOpNames (sorting : Sorting) (consistent : exec.Consistent) (typed : exec.Typed) :
    ∃ primitiveMap opAttrs, primitiveMap.Perm exec.primitiveMap ∧
      List.Forall₂ (fun l r => l.1 = r.1 ∧ l.2.Perm r.2) opAttrs exec.opAttrs ∧
      Reads (loadPrimitiveOpNames dmlc) (savePrimitiveOpNames dmlc sorting exec) (primitiveMap, opAttrs) := by
  obtain ⟨names, distinct, placed⟩ := consistent.primitives
  have attrs : ∀ entry ∈ exec.opAttrs, (loadedAttrs (savedAttrs sorting entry.2)).Perm entry.2 :=
    fun entry member => attrs_loaded sorting (consistent.strings entry member)
  refine ⟨names.zipIdx, (exec.opAttrs.map fun entry => (.ofNat entry.1, savedAttrs sorting entry.2)).map
    fun fn => (UInt64.toNat fn.1, loadedAttrs fn.2), placed.symm, ?_, ?_⟩
  · rw [List.forall₂_map_left_iff, List.forall₂_map_left_iff, List.forall₂_same]
    exact fun entry member => ⟨UInt64.toNat_ofNat_of_lt' (typed.attrs entry member), attrs entry member⟩
  · rw [savePrimitiveOpNames, placeName_indexes placed, ← indexMap_eq distinct]
    refine reads_bind (dmlc.strings.inverse _) ?_
    rw [← List.append_nil (dmlc.attrs.write _)]
    exact reads_bind (dmlc.attrs.inverse _) (reads_pure _)

theorem load_save (sorting : Sorting) (version : String) {exec : Executable Device Tensor}
    (consistent : exec.Consistent) (typed : exec.Typed) :
    ∃ bytes loaded, save dmlc sorting version exec = .ok bytes ∧
      load dmlc version bytes = .ok (loaded, []) ∧ loaded.Same exec := by
  obtain ⟨bytes, saved, constants⟩ := reads_constantSection dmlc consistent typed
  obtain ⟨primitiveMap, opAttrs, samePrimitives, sameAttrs, ops⟩ :=
    reads_primitiveOpNames dmlc sorting consistent typed
  have globals : saveGlobalSection dmlc sorting exec =
      dmlc.strings.write (exec.functions.map VMFunction.name) := by
    rw [saveGlobalSection, sort_indexes sorting consistent.globals]
  have whole : Reads (load dmlc version) _ _ := reads_bind (reads_header dmlc version) <|
    reads_bind (reads_virtualDevicesSection dmlc consistent.host typed) <|
    reads_bind (dmlc.strings.inverse (exec.functions.map VMFunction.name)) <| reads_bind constants <|
    reads_bind ops <| reads_bind (reads_codeSection dmlc consistent.distinct typed) (reads_pure _)
  refine ⟨_, _, by simp [save, saved, globals]; rfl, by simpa using whole [], ?_⟩
  have same : exec.table.map Prod.fst = exec.constants := by
    have short := consistent.named
    rw [Executable.table, List.length_zip] at short
    exact List.map_fst_zip (by omega)
  exact {
    virtualDevices := rfl
    hostDeviceIndex := rfl
    constants := same
    table := table_loaded exec exec.table
    globalMap := by simpa [indexMap_eq consistent.distinct] using consistent.globals.symm
    primitiveMap := samePrimitives
    opAttrs := sameAttrs
    functions := rfl
    constDeviceIndexes := rfl }

end

inductive Token where
  | uint64 (n : UInt64)
  | uint32 (n : UInt32)
  | int (z : Int32)
  | string (s : String)
  | strings (l : List String)
  | indexes (l : List Int64)
  | devices (l : List Nat)
  | attrs (l : List (UInt64 × List (String × String)))
  | tensor (n : Nat)

def tokens : Dmlc Token Nat Nat where
  uint64 := .single .uint64 (fun | .uint64 n => some n | _ => none) fun _ => rfl
  uint32 := .single .uint32 (fun | .uint32 n => some n | _ => none) fun _ => rfl
  int := .single .int (fun | .int z => some z | _ => none) fun _ => rfl
  string := .single .string (fun | .string s => some s | _ => none) fun _ => rfl
  strings := .single .strings (fun | .strings l => some l | _ => none) fun _ => rfl
  indexes := .single .indexes (fun | .indexes l => some l | _ => none) fun _ => rfl
  devices := .single .devices (fun | .devices l => some l | _ => none) fun _ => rfl
  attrs := .single .attrs (fun | .attrs l => some l | _ => none) fun _ => rfl
  tensor := .single .tensor (fun | .tensor n => some n | _ => none) fun _ => rfl

-- The functions are not in the order of the global map, and one constant is bound late.
def mixedExecutable : Executable Nat Nat where
  virtualDevices := [1]
  hostDeviceIndex := 0
  constants := [some 7, none]
  lateBoundConstantNames := [none, some "const_1"]
  globalMap := [("main", 1), ("helper", 0)]
  primitiveMap := [("mul", 1), ("add", 0)]
  opAttrs := [(0, [("hash", .string "0f")])]
  functions := [
    ⟨"helper", ["x"], [.invokePacked 0 1 [0, 1], .ret 1], 2, [0], rfl⟩,
    ⟨"main", ["y"], [.loadConst 1 0, .allocTensor 0 1 [2, 3] ⟨2, 32, 1⟩ 2, .invoke 0 [0] 1, .ret 1], 3, [0], rfl⟩]
  constDeviceIndexes := [0, 0]

theorem load_save_mixed :
    ∃ bytes loaded, save tokens .byInsertion "0.13" mixedExecutable = .ok bytes ∧
      load tokens "0.13" bytes = .ok (loaded, []) ∧ loaded.Same mixedExecutable :=
  load_save tokens .byInsertion "0.13" {
    distinct := by decide
    globals := by decide
    primitives := ⟨["add", "mul"], by decide, by decide⟩
    strings := by simp [mixedExecutable]
    host := by decide
    named := by decide
    bound := by decide
    placed := by decide } {
    host := by decide
    constants := by decide
    functions := by decide
    constDevices := by decide
    attrs := by decide
    paramDevices := by decide
    fields := by decide }

-- Without a device for each constant, with a name missing, and with a constant that has both a
-- value and a name.
theorem tables_refused :
    (∃ bytes, save tokens .byInsertion "0.13" { mixedExecutable with constDeviceIndexes := [] } = .ok bytes ∧
      load tokens "0.13" bytes = .error .check) ∧
    save tokens .byInsertion "0.13" { mixedExecutable with lateBoundConstantNames := [some "const_1"] } =
      .error .undefined ∧
    save tokens .byInsertion "0.13" { mixedExecutable with constants := [some 7, some 8] } = .error .check :=
  ⟨⟨_, rfl, rfl⟩, rfl, rfl⟩

end Tlm.Vm
