import Tlm.Tir.Simplify

set_option autoImplicit false

namespace Tlm.Tir

open Cpp
open Liveness
open MetaSchedule (RVKind RV Bytes ascii)

def letterByte : RVKind → UInt8
  | .block => 98
  | .loop => 108
  | .var => 118

def digitBytes (i : Nat) : Bytes :=
  (Nat.toDigits 10 i).map fun c => UInt8.ofNat c.toNat

theorem rvName_eq (kind : RVKind) (i : Nat) : rvName kind i = letterByte kind :: digitBytes i := by
  have digits : (toString i).toList = Nat.toDigits 10 i := Nat.toList_repr
  rw [rvName, ascii, String.toList_append, digits, List.map_append]
  cases kind <;> rfl

theorem digitBytes_back (i : Nat) : (digitBytes i).map (fun b => Char.ofNat b.toNat) = Nat.toDigits 10 i := by
  obtain ⟨head, tail, shape, -, digits⟩ := toDigits_cons i
  rw [digitBytes, List.map_map, shape]
  have same : ∀ c ∈ head :: tail,
      ((fun b : UInt8 => Char.ofNat b.toNat) ∘ fun c : Char => UInt8.ofNat c.toNat) c = c := by
    intro c mem
    have bounds := isDigit_bounds (digits c mem)
    rw [Function.comp_apply, UInt8.toNat_ofNat', Nat.mod_eq_of_lt (by omega), Char.ofNat_toNat]
  rw [List.map_congr_left same, List.map_id']

variable {i j : Nat}

theorem digitBytes_inj (same : digitBytes i = digitBytes j) : i = j := by
  have digits : Nat.toDigits 10 i = Nat.toDigits 10 j := by
    rw [← digitBytes_back, ← digitBytes_back, same]
  calc
    i = Nat.ofDigitChars 10 (Nat.toDigits 10 i) 0 := Nat.ofDigitChars_ten_toDigits.symm
    _ = j := by rw [digits, Nat.ofDigitChars_ten_toDigits]

theorem rvName_index {kind other : RVKind} (same : rvName kind i = rvName other j) : i = j := by
  rw [rvName_eq, rvName_eq, List.cons.injEq] at same
  exact digitBytes_inj same.2

theorem zero_notMem_digitBytes (i : Nat) : 0 ∉ digitBytes i := by
  intro mem
  obtain ⟨c, inside, zero⟩ := List.mem_map.mp mem
  have bounds := isDigit_bounds (Nat.isDigit_of_mem_toDigits (by decide) (by decide) inside)
  have value := congrArg UInt8.toNat zero
  rw [UInt8.toNat_ofNat', Nat.mod_eq_of_lt (by omega)] at value
  change c.toNat = 0 at value
  omega

theorem cString_eq_self_iff {data : Bytes} : cString data = data ↔ 0 ∉ data := by
  rw [cString, List.takeWhile_eq_self_iff]
  constructor
  · intro all mem
    exact absurd (all 0 mem) (by decide)
  · intro absent b mem
    rw [bne_iff_ne]
    rintro rfl
    exact absent mem

structure PlainName (name : Bytes) : Prop where
  head : ∃ first rest, name = first :: rest ∧ first ≠ openBrace ∧ first ≠ quote
  noZero : 0 ∉ name

theorem plainName_none : PlainName (ascii "None") :=
  ⟨⟨78, [111, 110, 101], rfl, by decide, by decide⟩, by decide⟩

theorem plainName_rvName (kind : RVKind) (i : Nat) : PlainName (rvName kind i) := by
  rw [rvName_eq]
  constructor
  · exact ⟨letterByte kind, digitBytes i, rfl, by cases kind <;> decide, by cases kind <;> decide⟩
  · rw [List.mem_cons]
    rintro (zero | mem)
    · cases kind <;> cases zero
    · exact zero_notMem_digitBytes i mem

theorem rvName_ne_none (kind : RVKind) (i : Nat) : rvName kind i ≠ ascii "None" := by
  rw [rvName_eq]
  intro same
  have head := (List.cons.inj (same.trans (show ascii "None" = [78, 111, 110, 101] from rfl))).1
  cases kind <;> cases head

section

variable (text : IndexMapText)

theorem resolveName_plain (named : NamedRVs) {name : Bytes} (plain : PlainName name) :
    resolveName text named name = found .check (named name) := by
  obtain ⟨⟨first, rest, rfl, noBrace, noQuote⟩, noZero⟩ := plain
  rw [resolveName, cString_eq_self_iff.mpr noZero]
  simp [noBrace, noQuote]

theorem resolveName_quoted (named : NamedRVs) (data : Bytes) :
    resolveName text named (quote :: data ++ [quote]) = .ok (.str data) := by
  have differ : quote ≠ openBrace := by decide
  have last : (quote :: (data ++ [quote])).getLast? = some quote := by
    rw [← List.cons_append, List.getLast?_concat]
  rw [resolveName]
  simp [differ, last]

end

structure Agree (names : RVNames) (rvMap : RVMap) (named : NamedRVs) : Prop where
  null : named (ascii "None") = some .null
  known : ∀ rv name, names.name rv = some name →
    (∃ kind i, i < names.length ∧ name = rvName kind i) ∧
      ∃ value, rvMap rv = some value ∧ named name = some value
  fresh : ∀ kind i, names.length ≤ i → named (rvName kind i) = none

theorem Agree.start : Agree [] (fun _ => none) noneOnly := by
  constructor
  · exact Function.update_self _ _ _
  · intro rv name known
    cases known
  · intro kind i _
    exact Function.update_of_ne (rvName_ne_none kind i) _ _

theorem Agree.emplace {names : RVNames} {rvMap : RVMap} {named : NamedRVs}
    (agree : Agree names rvMap named) {output : RV} (new : names.name output = none) (value : ObjectRef) :
    Agree (names ++ [(output, rvName output.kind names.length)]) (Function.update rvMap output (some value))
      (named.emplace (rvName output.kind names.length) value) := by
  have absent := agree.fresh output.kind names.length (le_refl _)
  have placed : named.emplace (rvName output.kind names.length) value =
      Function.update named (rvName output.kind names.length) (some value) := by
    simp [NamedRVs.emplace, absent]
  rw [placed]
  constructor
  · rw [Function.update_of_ne (rvName_ne_none _ _).symm]
    exact agree.null
  · intro rv name known
    rw [RVNames.name, List.lookup_append, List.length_append] at *
    cases old : names.lookup rv with
    | some found =>
      rw [old, Option.some_or, Option.some.injEq] at known
      subst known
      obtain ⟨⟨kind, i, bound, shape⟩, value', inMap, inNamed⟩ := agree.known rv found old
      refine ⟨⟨kind, i, Nat.lt_succ_of_lt bound, shape⟩, value', ?_, ?_⟩
      · rw [Function.update_of_ne _, inMap]
        rintro rfl
        rw [old] at new
        cases new
      · rw [Function.update_of_ne _, inNamed]
        rintro rfl
        have := rvName_index shape
        omega
    | none =>
      rw [old, Option.none_or, List.lookup_cons, List.lookup_nil] at known
      by_cases same : rv = output
      · subst same
        rw [beq_self_eq_true] at known
        cases known
        exact ⟨⟨rv.kind, names.length, Nat.lt_succ_self _, rfl⟩, value,
          Function.update_self _ _ _, Function.update_self _ _ _⟩
      · rw [beq_false_of_ne same] at known
        cases known
  · intro kind i late
    rw [List.length_append, List.length_singleton] at late
    rw [Function.update_of_ne]
    · exact agree.fresh kind i (by omega)
    · intro same
      have := rvName_index same
      omega

variable {names' : RVNames} {outNames : List Bytes}

theorem Agree.outputs {names : RVNames} {rvMap : RVMap} {named : NamedRVs} {values : List ObjectRef}
    {outputs : List RV} (agree : Agree names rvMap named)
    (run : nameOutputRVs names outputs = .ok (names', outNames)) (size : outputs.length = values.length) :
    Agree names' ((outputs.zip values).foldl (fun map pair => Function.update map pair.1 (some pair.2)) rvMap)
      ((outNames.zip values).foldl (fun named pair => named.emplace pair.1 pair.2) named) := by
  induction outputs generalizing names rvMap named outNames values with
  | nil =>
    cases run
    exact agree
  | cons output rest ih =>
    simp only [nameOutputRVs, bind_ok, ensure_ok] at run
    obtain ⟨_, new, ⟨next, restNames⟩, tail, rfl, rfl⟩ := run
    cases values with
    | nil => cases size
    | cons value values =>
      exact ih (agree.emplace (Option.isNone_iff_eq_none.mp new) value) tail (Nat.succ.inj size)

-- What survives `AsJSON`: a string must not be cut at a zero byte, an index map is not text yet.
mutual

def ObjectRef.clean : ObjectRef → Bool
  | .null => true
  | .rv _ => true
  | .int _ => true
  | .float _ => true
  | .str data => 0 ∉ data
  | .array items => cleanInputs items
  | _ => false

def cleanInputs : List ObjectRef → Bool
  | [] => true
  | input :: rest => input.clean && cleanInputs rest

end

section

variable {text : IndexMapText} {names : RVNames} {rvMap : RVMap} {named : NamedRVs}

mutual

theorem resolveInput_clean (agree : Agree names rvMap named) :
    ∀ {input json : ObjectRef}, stringifyInput text names input = .ok json →
      input.clean = true →
      ∃ value, translateInput rvMap input = .ok value ∧ resolveInput text named json = .ok value
  | .null, _, rfl, _ => by
    refine ⟨.null, rfl, ?_⟩
    rw [resolveInput, resolveName_plain text named plainName_none, agree.null]
    rfl
  | .rv rv, json, run, _ => by
    rw [stringifyInput] at run
    split at run
    next name known =>
      cases run
      obtain ⟨⟨kind, i, -, rfl⟩, value, inMap, inNamed⟩ := agree.known rv name known
      refine ⟨value, found_ok.mpr inMap, ?_⟩
      rw [resolveInput, resolveName_plain text named (plainName_rvName kind i), inNamed]
      rfl
    · cases run
  | .str data, _, rfl, clean => by
    refine ⟨.str data, rfl, ?_⟩
    rw [resolveInput, resolveName_quoted, cString_eq_self_iff.mpr (of_decide_eq_true clean)]
  | .int value, _, rfl, _ => ⟨.int value, rfl, rfl⟩
  | .float bits, _, rfl, _ => ⟨.float bits, rfl, rfl⟩
  | .array items, json, run, clean => by
    simp only [stringifyInput, bind_ok, pure_ok] at run
    obtain ⟨jsons, run, rfl⟩ := run
    obtain ⟨values, direct, resolved⟩ := resolveInputs_clean agree run clean
    refine ⟨.array values, ?_, ?_⟩
    · rw [translateInput, direct]
      rfl
    · rw [resolveInput, resolved]
      rfl

theorem resolveInputs_clean (agree : Agree names rvMap named) :
    ∀ {inputs jsons : List ObjectRef}, stringifyInputRVs text names inputs = .ok jsons →
      cleanInputs inputs = true →
      ∃ values, translateInputRVs rvMap inputs = .ok values ∧
        resolveInputRVs text named jsons = .ok values
  | [], _, rfl, _ => ⟨[], rfl, rfl⟩
  | input :: rest, jsons, run, clean => by
    simp only [stringifyInputRVs, bind_ok, pure_ok] at run
    obtain ⟨json, first, jsons, tail, rfl⟩ := run
    rw [cleanInputs, Bool.and_eq_true] at clean
    obtain ⟨value, direct, resolved⟩ := resolveInput_clean agree first clean.1
    obtain ⟨values, directs, resolveds⟩ := resolveInputs_clean agree tail clean.2
    refine ⟨value :: values, ?_, ?_⟩
    · rw [translateInputRVs, direct, directs]
      rfl
    · rw [resolveInputRVs, resolved, resolveds]
      rfl

end

mutual

theorem clean_of_resolveInput :
    ∀ {input json value : ObjectRef}, stringifyInput text names input = .ok json →
      translateInput rvMap input = .ok value → resolveInput text named json = .ok value →
      input.clean = true
  | .null, _, _, _, _, _ => rfl
  | .rv _, _, _, _, _, _ => rfl
  | .int _, _, _, _, _, _ => rfl
  | .float _, _, _, _, _, _ => rfl
  | .str data, _, _, rfl, rfl, resolved => by
    rw [resolveInput, resolveName_quoted, Except.ok.injEq, ObjectRef.str.injEq] at resolved
    exact decide_eq_true (cString_eq_self_iff.mp resolved)
  | .array items, json, value, run, direct, resolved => by
    simp only [stringifyInput, translateInput, bind_ok, pure_ok] at run direct
    obtain ⟨jsons, run, rfl⟩ := run
    obtain ⟨values, direct, rfl⟩ := direct
    simp only [resolveInput, bind_ok, pure_ok, ObjectRef.array.injEq] at resolved
    obtain ⟨_, resolved, rfl⟩ := resolved
    exact clean_of_resolveInputs run direct resolved
  | .indexMap map, json, value, run, _, resolved => by
    simp only [stringifyInput, bind_ok, pure_ok] at run
    obtain ⟨renamed, -, rfl⟩ := run
    cases resolved
  | .expr _ _, _, _, run, _, _ => by cases run
  | .dict _, _, _, _, direct, _ => by cases direct

theorem clean_of_resolveInputs :
    ∀ {inputs jsons values : List ObjectRef}, stringifyInputRVs text names inputs = .ok jsons →
      translateInputRVs rvMap inputs = .ok values →
      resolveInputRVs text named jsons = .ok values → cleanInputs inputs = true
  | [], _, _, _, _, _ => rfl
  | input :: rest, jsons, values, run, direct, resolved => by
    simp only [stringifyInputRVs, translateInputRVs, bind_ok, pure_ok] at run direct
    obtain ⟨json, first, jsons, tail, rfl⟩ := run
    obtain ⟨value, direct, values, directs, rfl⟩ := direct
    simp only [resolveInputRVs, bind_ok] at resolved
    obtain ⟨_, resolved, _, resolveds, rfl, rfl⟩ := resolved
    rw [cleanInputs, Bool.and_eq_true]
    exact ⟨clean_of_resolveInput first direct resolved,
      clean_of_resolveInputs tail directs resolveds⟩

end

mutual

theorem stringifyInput_ok_iff :
    ∀ {input : ObjectRef}, input.clean = true →
      ((∃ json, stringifyInput text names input = .ok json) ↔
        ∀ rv ∈ input.uses, ∃ name, names.name rv = some name)
  | .null, _ => by simp [stringifyInput, ObjectRef.uses]
  | .int _, _ => by simp [stringifyInput, ObjectRef.uses]
  | .float _, _ => by simp [stringifyInput, ObjectRef.uses]
  | .str _, _ => by simp [stringifyInput, ObjectRef.uses]
  | .rv rv, _ => by
    rw [stringifyInput]
    cases known : names.name rv <;> simp [ObjectRef.uses, known]
  | .array items, clean => by
    rw [ObjectRef.uses, ← stringifyInputs_ok_iff clean]
    simp only [stringifyInput, bind_ok]
    constructor
    · rintro ⟨_, jsons, run, -⟩
      exact ⟨jsons, run⟩
    · rintro ⟨jsons, run⟩
      exact ⟨_, jsons, run, rfl⟩

theorem stringifyInputs_ok_iff :
    ∀ {inputs : List ObjectRef}, cleanInputs inputs = true →
      ((∃ jsons, stringifyInputRVs text names inputs = .ok jsons) ↔
        ∀ rv ∈ usesOf inputs, ∃ name, names.name rv = some name)
  | [], _ => by simp [stringifyInputRVs, usesOf]
  | input :: rest, clean => by
    rw [cleanInputs, Bool.and_eq_true] at clean
    simp only [usesOf, List.forall_mem_append, ← stringifyInput_ok_iff clean.1,
      ← stringifyInputs_ok_iff clean.2, stringifyInputRVs, bind_ok]
    constructor
    · rintro ⟨_, json, first, jsons, tail, -⟩
      exact ⟨⟨json, first⟩, jsons, tail⟩
    · rintro ⟨⟨json, first⟩, jsons, tail⟩
      exact ⟨_, json, first, jsons, tail, rfl⟩

end

end

def IndexMapText.RoundTrips (text : IndexMapText) (attrs : List ObjectRef) : Prop :=
  ∀ map, ObjectRef.indexMap map ∈ attrs →
    text.loadJSON (text.saveJSON (.indexMap map)) = .ok (.indexMap map)

theorem loadAttrs_saveAttrs {text : IndexMapText} {form : AttrsForm} {attrs : List ObjectRef}
    (fits : form.Fits attrs) (trips : text.RoundTrips attrs) :
    ∃ saved, saveAttrs text attrs form = .ok saved ∧ loadAttrs text saved form = .ok attrs := by
  cases form with
  | same => exact ⟨attrs, rfl, rfl⟩
  | transformLayout =>
    obtain ⟨index, type, pad, injective, rfl, rfl | ⟨map, rfl⟩⟩ := fits
    · exact ⟨[index, type, .null, injective], rfl, rfl⟩
    · refine ⟨[index, type, .str (text.saveJSON (.indexMap map)), injective], rfl, ?_⟩
      change (text.loadJSON (text.saveJSON (.indexMap map)) >>= _) = _
      rw [trips map (by simp)]
      rfl
  | transformBlockLayout =>
    obtain ⟨map, rfl⟩ := fits
    refine ⟨[.str (text.saveJSON (.indexMap map))], rfl, ?_⟩
    change (text.loadJSON (text.saveJSON (.indexMap map)) >>= _) = _
    rw [trips map List.mem_cons_self]
    rfl

def RVNames.known (names : RVNames) : List RV :=
  names.map Prod.fst

variable {rv : RV}

theorem RVNames.name_eq_none_iff {names : RVNames} : names.name rv = none ↔ rv ∉ names.known := by
  rw [name, List.lookup_eq_none_iff, known, List.mem_map]
  constructor
  · rintro absent ⟨entry, mem, rfl⟩
    exact absurd rfl (bne_iff_ne.mp (absent entry mem))
  · rintro absent entry mem
    rw [bne_iff_ne]
    rintro rfl
    exact absent ⟨entry, mem, rfl⟩

theorem RVNames.name_some_iff {names : RVNames} : (∃ name, names.name rv = some name) ↔ rv ∈ names.known := by
  rw [← Option.isSome_iff_exists, ← Option.ne_none_iff_isSome, ne_eq, name_eq_none_iff, not_not]

theorem nameOutputRVs_ok {names : RVNames} {outputs : List RV}
    (run : nameOutputRVs names outputs = .ok (names', outNames)) :
    names'.known = names.known ++ outputs ∧ outNames.length = outputs.length ∧
      (names.known.Nodup → names'.known.Nodup) := by
  induction outputs generalizing names outNames with
  | nil =>
    cases run
    exact ⟨(List.append_nil _).symm, rfl, id⟩
  | cons output rest ih =>
    simp only [nameOutputRVs, bind_ok, ensure_ok,
      Option.isNone_iff_eq_none, RVNames.name_eq_none_iff] at run
    obtain ⟨_, new, ⟨next, restNames⟩, tail, rfl, rfl⟩ := run
    obtain ⟨known, size, nodup⟩ := ih tail
    simp only [RVNames.known, List.map_append, List.map_cons] at known nodup new ⊢
    refine ⟨?_, ?_, fun distinct => nodup ?_⟩
    · rw [known, List.append_assoc]
      rfl
    · rw [List.length_cons, List.length_cons, size]
    · rw [List.nodup_append]
      refine ⟨distinct, List.nodup_singleton _, ?_⟩
      rintro rv mem _ same rfl
      exact new (List.mem_singleton.mp same ▸ mem)

theorem nameOutputRVs_total {names : RVNames} {outputs : List RV}
    (distinct : (names.known ++ outputs).Nodup) : ∃ result, nameOutputRVs names outputs = .ok result := by
  induction outputs generalizing names with
  | nil => exact ⟨_, rfl⟩
  | cons output rest ih =>
    have new : names.name output = none := by
      rw [RVNames.name_eq_none_iff]
      intro mem
      exact (List.nodup_append.mp distinct).2.2 output mem output List.mem_cons_self rfl
    obtain ⟨result, run⟩ := @ih (names ++ [(output, rvName output.kind names.length)]) (by
      simpa [RVNames.known] using distinct)
    refine ⟨(result.1, rvName output.kind names.length :: result.2), ?_⟩
    simp only [nameOutputRVs, bind_ok, new]
    exact ⟨(), rfl, result, run, rfl⟩

theorem mapM_asString (outputs : List Bytes) : (outputs.map ObjectRef.str).mapM asString = .ok outputs := by
  induction outputs with
  | nil => rfl
  | cons output rest ih =>
    rw [List.map_cons, List.mapM_cons, ih]
    rfl

theorem parseEntry_written {registry : Bytes → Option InstructionKind} {kind : InstructionKind}
    (registered : registry (cString kind.name) = some kind) (inputs attrs : List ObjectRef)
    (outputs : List Bytes) :
    parseEntry registry (.array [.str kind.name, .array inputs, .array attrs,
      .array (outputs.map .str)]) = .ok ⟨kind, inputs, attrs, outputs⟩ := by
  simp only [parseEntry, bind_ok, found_ok, mapM_asString]
  exact ⟨outputs, rfl, kind, registered, rfl⟩

theorem optional_of_optional {value : Option ObjectRef} {decision : ObjectRef}
    (same : value.bind Trace.optional = some decision) : Trace.optional decision = some decision := by
  have twice := optional_bind_optional value
  rw [same] at twice
  exact twice

variable {insts : List Instruction} {jsons entries : List ObjectRef}

theorem instsAsJSON_length (text : IndexMapText) (trace : Trace) {names : RVNames}
    (run : trace.instsAsJSON text names i insts = .ok (jsons, entries)) : jsons.length = insts.length := by
  induction insts generalizing names i jsons entries with
  | nil =>
    cases run
    rfl
  | cons inst rest ih =>
    simp only [Trace.instsAsJSON, bind_ok] at run
    obtain ⟨inputs, -, attrs, -, ⟨next, outputs⟩, -, ⟨tailJsons, tailEntries⟩, tail, rfl, -⟩ := run
    rw [List.length_cons, List.length_cons, ih tail]

theorem parseDecisions_written (text : IndexMapText) (trace : Trace) {names : RVNames} {size : Nat}
    (run : trace.instsAsJSON text names i insts = .ok (jsons, entries)) (bound : i + insts.length ≤ size)
    (decisions : Nat → Option ObjectRef) (empty : ∀ k, i ≤ k → decisions k = none) :
    ∃ filled, parseDecisions size decisions entries = .ok filled ∧
      (∀ k, k < i → filled k = decisions k) ∧
      ∀ k inst, insts[k]? = some inst → filled (i + k) = trace.getDecision inst := by
  induction insts generalizing names i jsons entries decisions with
  | nil =>
    cases run
    exact ⟨decisions, rfl, fun _ _ => rfl, fun k inst at_ => by cases at_⟩
  | cons inst rest ih =>
    simp only [Trace.instsAsJSON, bind_ok] at run
    obtain ⟨inputs, -, attrs, -, ⟨next, outputs⟩, -, ⟨tailJsons, tailEntries⟩, tail, rfl, rfl⟩ :=
      run
    rw [List.length_cons] at bound
    -- The first entry, if there is one, is read before the others.
    have first : ∃ started, parseDecisions size decisions
          (decisionEntry i (trace.getDecision inst) ++ tailEntries) = parseDecisions size started tailEntries ∧
        started i = trace.getDecision inst ∧ ∀ k, k ≠ i → started k = decisions k := by
      cases decision : trace.getDecision inst with
      | none => exact ⟨decisions, rfl, empty i (le_refl i), fun _ _ => rfl⟩
      | some value =>
        refine ⟨Function.update decisions i (some value), ?_, Function.update_self _ _ _,
          fun k other => Function.update_of_ne other _ _⟩
        have inside : (0 : Int) ≤ (i : Int) ∧ (i : Int) < size := by omega
        rw [decisionEntry, List.singleton_append, parseDecisions, if_pos inside, optional_of_optional decision]
        rfl
    obtain ⟨started, same, own, others⟩ := first
    obtain ⟨filled, parsed, before, after⟩ := ih tail (by omega) started (by
      intro k late
      rw [others k (by omega)]
      exact empty k (by omega))
    refine ⟨filled, same.trans parsed, ?_, ?_⟩
    · intro k early
      rw [before k (by omega), others k (by omega)]
    · intro k other at_
      cases k with
      | zero =>
        cases at_
        rw [Nat.add_zero, before i (by omega), own]
      | succ k =>
        rw [← after k other at_]
        congr 1
        omega

theorem parseDecisions_whole {text : IndexMapText} {trace : Trace}
    (run : trace.instsAsJSON text [] 0 insts = .ok (jsons, entries)) :
    ∃ filled, parseDecisions jsons.length (fun _ => none) entries = .ok filled ∧
      ∀ k inst, insts[k]? = some inst → filled (0 + k) = trace.getDecision inst := by
  have size : 0 + insts.length ≤ jsons.length := by
    rw [Nat.zero_add, instsAsJSON_length text trace run]
  obtain ⟨filled, parsed, -, decided⟩ :=
    parseDecisions_written text trace run size (fun _ => none) (fun _ _ => rfl)
  exact ⟨filled, parsed, decided⟩

namespace Outcome

variable {σ : Type} {fApply : Call → σ → Except Fault (List ObjectRef × σ)} {final : σ}

theorem returns_orStop {α : Type} {x : Except Fault α} {more : α → Outcome σ}
    (returns : (orStop x more).result = .ok final) : ∃ a, x = .ok a ∧ (more a).result = .ok final := by
  cases x with
  | ok a => exact ⟨a, rfl, returns⟩
  | error fault => cases returns

variable {call : Call} {sch : σ} {more : List ObjectRef → σ → Outcome σ}

theorem returns_perform (returns : (perform fApply call sch more).result = .ok final) :
    ∃ done, fApply call sch = .ok done ∧ (more done.1 done.2).result = .ok final :=
  returns_orStop returns

theorem perform_inj {other : Call} {moreOther : List ObjectRef → σ → Outcome σ}
    {done : List ObjectRef × σ} (applied : fApply call sch = .ok done)
    (same : perform fApply other sch moreOther = perform fApply call sch more) :
    other = call ∧ moreOther done.1 done.2 = more done.1 done.2 := by
  simp only [perform, mk.injEq, List.cons.injEq] at same
  obtain ⟨⟨rfl, calls⟩, result⟩ := same
  rw [applied, orStop_ok, orStop_ok] at calls result
  refine ⟨rfl, ?_⟩
  cases left : moreOther done.1 done.2
  cases right : more done.1 done.2
  rw [left, right] at calls result
  rw [mk.injEq]
  exact ⟨calls, result⟩

end Outcome

section

variable {text : IndexMapText} {registry : Bytes → Option InstructionKind}
variable {σ : Type} {fApply : Call → σ → Except Fault (List ObjectRef × σ)} {trace : Trace}

structure Written (trace : Trace) (text : IndexMapText) (registry : Bytes → Option InstructionKind)
    (names : RVNames) (inst : Instruction) (entry : ObjectRef) where
  inputs : List ObjectRef
  attrs : List ObjectRef
  next : RVNames
  outputs : List Bytes
  stringified : stringifyInputRVs text names inst.inputs = .ok inputs
  loaded : loadAttrs text attrs inst.kind.attrsForm = .ok inst.attrs
  named : nameOutputRVs names inst.outputs = .ok (next, outputs)
  parsed : parseEntry registry entry = .ok ⟨inst.kind, inputs, attrs, outputs⟩

variable {i : Nat} {inst : Instruction} {jsons entries : List ObjectRef}

theorem instsAsJSON_cons {names : RVNames} {rest : List Instruction}
    (registered : registry (cString inst.kind.name) = some inst.kind) (trips : text.RoundTrips inst.attrs)
    (run : trace.instsAsJSON text names i (inst :: rest) = .ok (jsons, entries)) :
    ∃ entry tailJsons tailEntries, ∃ written : Written trace text registry names inst entry,
      jsons = entry :: tailJsons ∧
        trace.instsAsJSON text written.next (i + 1) rest = .ok (tailJsons, tailEntries) := by
  simp only [Trace.instsAsJSON, bind_ok] at run
  obtain ⟨inputs, stringified, attrs, saved, ⟨next, outputs⟩, named, ⟨tailJsons, tailEntries⟩, tail,
    rfl, -⟩ := run
  obtain ⟨saved', same, loaded⟩ := loadAttrs_saveAttrs inst.attrsFit trips
  rw [saved, Except.ok.injEq] at same
  subst same
  exact ⟨_, tailJsons, tailEntries, ⟨inputs, attrs, next, outputs, stringified, loaded, named,
      parseEntry_written registered inputs attrs outputs⟩, rfl, tail⟩

variable {decisions : Nat → Option ObjectRef} {entry : ObjectRef}

theorem applyEntries_cons {names : RVNames} {named : NamedRVs}
    (written : Written trace text registry names inst entry) (i : Nat) (sch : σ) (rest : List ObjectRef) :
    applyEntries text fApply registry decisions named i sch (entry :: rest) =
      .orStop (resolveInputRVs text named written.inputs) fun inputs =>
        .perform fApply ⟨inst.kind, inputs, inst.attrs, decisions i⟩ sch fun outputs sch =>
          .orStop (addNamedRVs named written.outputs outputs) fun named =>
            applyEntries text fApply registry decisions named (i + 1) sch rest := by
  rw [applyEntries, written.parsed, Outcome.orStop_ok, written.loaded]
  simp only [Outcome.orStop_ok]

theorem Agree.next {names : RVNames} {rvMap : RVMap} {named : NamedRVs} (agree : Agree names rvMap named)
    (written : Written trace text registry names inst entry) (values : List ObjectRef) :
    (∃ rvMap' named', addOutputRVs rvMap inst.outputs values = .ok rvMap' ∧
        addNamedRVs named written.outputs values = .ok named' ∧
        Agree written.next rvMap' named') ∨
      (addOutputRVs rvMap inst.outputs values = .error .check ∧
        addNamedRVs named written.outputs values = .error .check) := by
  have size := (nameOutputRVs_ok written.named).2.1
  rw [addOutputRVs, addNamedRVs, size]
  by_cases same : inst.outputs.length = values.length
  · left
    rw [beq_iff_eq.mpr same]
    exact ⟨_, _, rfl, rfl, agree.outputs written.named same⟩
  · right
    rw [beq_false_of_ne same]
    exact ⟨rfl, rfl⟩

variable {insts : List Instruction} {sch : σ}

section

variable (registered : ∀ inst ∈ insts, registry (cString inst.kind.name) = some inst.kind) (trips : ∀ inst ∈ insts, text.RoundTrips inst.attrs)

include registered trips

theorem applyEntries_clean {names : RVNames} {rvMap : RVMap} {named : NamedRVs}
    (clean : ∀ inst ∈ insts, cleanInputs inst.inputs = true)
    (decided : ∀ k inst, insts[k]? = some inst → decisions (i + k) = trace.getDecision inst)
    (run : trace.instsAsJSON text names i insts = .ok (jsons, entries)) (agree : Agree names rvMap named) :
    applyEntries text fApply registry decisions named i sch jsons = trace.applyFrom fApply rvMap sch insts := by
  induction insts generalizing names rvMap named i sch jsons entries with
  | nil =>
    cases run
    rfl
  | cons inst rest ih =>
    obtain ⟨entry, tailJsons, tailEntries, written, rfl, tail⟩ :=
      instsAsJSON_cons (registered inst List.mem_cons_self) (trips inst List.mem_cons_self) run
    obtain ⟨inputs, direct, resolved⟩ :=
      resolveInputs_clean agree written.stringified (clean inst List.mem_cons_self)
    have decision : decisions i = trace.getDecision inst := decided 0 inst rfl
    rw [applyEntries_cons written, Trace.applyFrom, direct, resolved, decision,
      Outcome.orStop_ok, Outcome.orStop_ok]
    congr 1
    funext values sch
    rcases agree.next written values with ⟨rvMap', named', inMap, inNamed, agree⟩ | ⟨inMap, inNamed⟩
    · rw [inMap, inNamed]
      apply ih _ _ _ _ tail agree
      · exact fun other mem => registered other (List.mem_cons_of_mem _ mem)
      · exact fun other mem => trips other (List.mem_cons_of_mem _ mem)
      · exact fun other mem => clean other (List.mem_cons_of_mem _ mem)
      · intro k other at_
        rw [← decided (k + 1) other at_]
        congr 1
        omega
    · rw [inMap, inNamed]
      rfl

-- A replay that returns has made each call, so an input that was lost shows in the calls.
theorem clean_of_applyEntries {names : RVNames} {rvMap : RVMap} {named : NamedRVs} {final : σ}
    (run : trace.instsAsJSON text names i insts = .ok (jsons, entries)) (agree : Agree names rvMap named)
    (returns : (trace.applyFrom fApply rvMap sch insts).result = .ok final)
    (same : applyEntries text fApply registry decisions named i sch jsons =
      trace.applyFrom fApply rvMap sch insts) : ∀ inst ∈ insts, cleanInputs inst.inputs = true := by
  induction insts generalizing names rvMap named i sch jsons entries with
  | nil => exact fun inst mem => by cases mem
  | cons inst rest ih =>
    obtain ⟨entry, tailJsons, tailEntries, written, rfl, tail⟩ :=
      instsAsJSON_cons (registered inst List.mem_cons_self) (trips inst List.mem_cons_self) run
    rw [applyEntries_cons written] at same
    rw [Trace.applyFrom] at same returns
    obtain ⟨inputs, direct, returns⟩ := Outcome.returns_orStop returns
    rw [direct, Outcome.orStop_ok] at same
    obtain ⟨done, applied, performed⟩ := Outcome.returns_perform returns
    obtain ⟨rvMap', inMap, returned⟩ := Outcome.returns_orStop performed
    cases resolved : resolveInputRVs text named written.inputs with
    | error fault =>
      rw [resolved, Outcome.orStop_error, Outcome.stop, Outcome.perform, Outcome.mk.injEq] at same
      cases same.1
    | ok seen =>
      rw [resolved, Outcome.orStop_ok] at same
      obtain ⟨call, continued⟩ := Outcome.perform_inj applied same
      rw [Call.mk.injEq] at call
      obtain ⟨-, rfl, -, -⟩ := call
      have first := clean_of_resolveInputs written.stringified direct resolved
      rcases agree.next written done.1 with ⟨_, named', inMap', inNamed, agree⟩ | ⟨failed, -⟩
      · rw [inMap, Except.ok.injEq] at inMap'
        subst inMap'
        rw [inMap, inNamed, Outcome.orStop_ok, Outcome.orStop_ok] at continued
        have others := ih (fun other mem => registered other (List.mem_cons_of_mem _ mem))
          (fun other mem => trips other (List.mem_cons_of_mem _ mem)) tail agree returned continued
        exact List.forall_mem_cons.mpr ⟨first, others⟩
      · rw [failed] at inMap
        cases inMap

end

end

theorem instsAsJSON_ok_iff (text : IndexMapText) (trace : Trace) {names : RVNames} (i : Nat)
    (distinct : names.known.Nodup) (trips : ∀ inst ∈ insts, text.RoundTrips inst.attrs)
    (clean : ∀ inst ∈ insts, cleanInputs inst.inputs = true) :
    (∃ written, trace.instsAsJSON text names i insts = .ok written) ↔
      traceLanguage.Defined names.known insts ∧ (names.known ++ insts.flatMap Instruction.outputs).Nodup := by
  induction insts generalizing names i with
  | nil => simp [Trace.instsAsJSON, Language.Defined, distinct]
  | cons inst rest ih =>
    have inputs : (∃ jsons, stringifyInputRVs text names inst.inputs = .ok jsons) ↔
        ∀ rv ∈ inst.uses, rv ∈ names.known := by
      rw [stringifyInputs_ok_iff (clean inst List.mem_cons_self)]
      simp only [RVNames.name_some_iff, Instruction.uses]
    have others := fun other mem => clean other (List.mem_cons_of_mem inst mem)
    have otherTrips := fun other mem => trips other (List.mem_cons_of_mem inst mem)
    rw [List.flatMap_cons, ← List.append_assoc]
    constructor
    · rintro ⟨written, run⟩
      simp only [Trace.instsAsJSON, bind_ok] at run
      obtain ⟨jsons, stringified, attrs, -, ⟨next, outputs⟩, named, tail, run, -⟩ := run
      obtain ⟨known, -, nodup⟩ := nameOutputRVs_ok named
      have rest := (ih (i + 1) (nodup distinct) otherTrips others).mp ⟨tail, run⟩
      rw [known] at rest
      exact ⟨⟨inputs.mp ⟨jsons, stringified⟩, rest.1⟩, rest.2⟩
    · rintro ⟨⟨used, defined⟩, nodup⟩
      obtain ⟨jsons, stringified⟩ := inputs.mpr used
      obtain ⟨attrs, saved, -⟩ := loadAttrs_saveAttrs inst.attrsFit (trips inst List.mem_cons_self)
      obtain ⟨⟨next, outputs⟩, named⟩ := nameOutputRVs_total (List.nodup_append.mp nodup).1
      obtain ⟨known, -, keeps⟩ := nameOutputRVs_ok named
      rw [← known] at nodup
      obtain ⟨tail, run⟩ := (ih (i + 1) (keeps distinct) otherTrips others).mpr ⟨known ▸ defined, nodup⟩
      simp only [Trace.instsAsJSON, bind_ok]
      exact ⟨_, jsons, stringified, attrs, saved, ⟨next, outputs⟩, named, tail, run, rfl⟩

section

variable (text : IndexMapText) (registry : Bytes → Option InstructionKind)
variable {σ : Type} (fApply : Call → σ → Except Fault (List ObjectRef × σ))

def Trace.SameReplay (trace : Trace) (removePostproc : Bool) (sch : σ) : Prop :=
  ∃ json, trace.asJSON text removePostproc = .ok json ∧
    applyJSONToSchedule text fApply registry json sch =
      trace.applyToSchedule fApply sch removePostproc

-- No index map, no cut string, and every random variable is produced once, before its uses.
structure JsonSafe (insts : List Instruction) : Prop where
  clean : ∀ inst ∈ insts, cleanInputs inst.inputs = true
  defined : traceLanguage.Defined [] insts
  once : (insts.flatMap Instruction.outputs).Nodup

theorem sameReplay_iff_safe (trace : Trace) (removePostproc : Bool) (sch : σ)
    (registered : ∀ inst ∈ trace.insts, registry (cString inst.kind.name) = some inst.kind)
    (trips : ∀ inst ∈ trace.insts, text.RoundTrips inst.attrs) :
    (JsonSafe (trace.validInsts removePostproc) →
        trace.SameReplay text registry fApply removePostproc sch) ∧
      ∀ final, (trace.applyToSchedule fApply sch removePostproc).result = .ok final →
        trace.SameReplay text registry fApply removePostproc sch →
        JsonSafe (trace.validInsts removePostproc) := by
  have kinds : ∀ inst ∈ trace.validInsts removePostproc,
      registry (cString inst.kind.name) = some inst.kind :=
    fun inst mem => registered inst (trace.validInsts_subset removePostproc mem)
  have trips : ∀ inst ∈ trace.validInsts removePostproc, text.RoundTrips inst.attrs :=
    fun inst mem => trips inst (trace.validInsts_subset removePostproc mem)
  constructor
  · intro safe
    obtain ⟨⟨jsons, entries⟩, run⟩ :=
      (@instsAsJSON_ok_iff _ text trace [] 0 List.nodup_nil trips safe.clean).mpr ⟨safe.defined, safe.once⟩
    refine ⟨_, bind_ok.mpr ⟨_, run, rfl⟩, ?_⟩
    obtain ⟨filled, parsed, decided⟩ := parseDecisions_whole run
    rw [applyJSONToSchedule, parsed, Outcome.orStop_ok]
    exact applyEntries_clean kinds trips safe.clean decided run Agree.start
  · rintro final returns ⟨json, written, same⟩
    obtain ⟨⟨jsons, entries⟩, run, shape⟩ := bind_ok.mp written
    cases shape
    obtain ⟨filled, parsed, -⟩ := parseDecisions_whole run
    rw [applyJSONToSchedule, parsed, Outcome.orStop_ok] at same
    have clean := clean_of_applyEntries kinds trips run Agree.start returns same
    have ready := (@instsAsJSON_ok_iff _ text trace [] 0 List.nodup_nil trips clean).mp ⟨_, run⟩
    exact ⟨clean, ready.1, ready.2⟩

end

-- A layout transformation behind two other instructions; its padding is an index map as well.
def swapMap : IndexMap :=
  .plain [10, 11] [.var 11, .var 10]

def layoutTrace (input : ObjectRef) : Trace where
  insts :=
    [⟨0, ⟨ascii "GetBlock", true, .same⟩, [], [], [⟨.block, 0⟩], trivial⟩,
      ⟨1, ⟨ascii "SampleCategorical", true, .same⟩, [.array [.int 2, .null]], [], [⟨.var, 1⟩],
        trivial⟩,
      ⟨2, ⟨ascii "TransformLayout", false, .transformLayout⟩, [.rv ⟨.block, 0⟩, input],
        [.int 0, .int 0, .indexMap swapMap, .int 0], [],
        ⟨_, _, _, _, rfl, .inr ⟨swapMap, rfl⟩⟩⟩]
  decisions obj := if obj = 1 then some (.int 1) else none

def layoutKinds (name : Bytes) : Option InstructionKind :=
  [⟨ascii "GetBlock", true, .same⟩, ⟨ascii "SampleCategorical", true, .same⟩,
    ⟨ascii "TransformLayout", false, .transformLayout⟩].find? (·.name == name)

def layoutText : IndexMapText where
  saveJSON _ := ascii "swap"
  loadJSON _ := .ok (.indexMap swapMap)
  renameVariables _ map := .ok map
  substituteNames _ map := .ok map

-- A schedule that counts its calls and returns a fresh variable for each pure one.
def countCalls (call : Call) (count : Nat) : Except Fault (List ObjectRef × Nat) :=
  .ok (if call.kind.isPure then [.rv ⟨.var, 100 + count⟩] else [], count + 1)

theorem layout_registered (input : ObjectRef) :
    ∀ inst ∈ (layoutTrace input).insts, layoutKinds (cString inst.kind.name) = some inst.kind := by
  simp only [layoutTrace, List.forall_mem_cons]
  exact ⟨by decide, by decide, by decide, by simp⟩

theorem layout_trips (input : ObjectRef) :
    ∀ inst ∈ (layoutTrace input).insts, layoutText.RoundTrips inst.attrs := by
  simp [layoutTrace, IndexMapText.RoundTrips, layoutText]

theorem sameReplay_iff_safe_layout :
    ((layoutTrace (.rv ⟨.var, 1⟩)).applyToSchedule countCalls 0 false).result = .ok 3 ∧
      (layoutTrace (.rv ⟨.var, 1⟩)).SameReplay layoutText layoutKinds countCalls false 0 := by
  refine ⟨rfl, (sameReplay_iff_safe layoutText layoutKinds countCalls _ false 0
    (layout_registered _) (layout_trips _)).1 ?_⟩
  exact ⟨by decide, by decide, by decide⟩

-- The index map stays an object in the container, where the replay wants its text.
theorem indexMap_not_replayed :
    ((layoutTrace (.indexMap swapMap)).applyToSchedule countCalls 0 false).result = .ok 3 ∧
      ¬(layoutTrace (.indexMap swapMap)).SameReplay layoutText layoutKinds countCalls false 0 := by
  refine ⟨rfl, ?_⟩
  rintro ⟨json, written, same⟩
  cases written
  have ends : (Except.error .check : Except Fault Nat) = .ok 3 := congrArg Outcome.result same
  cases ends

end Tlm.Tir
