import Tlm.MetaSchedule.JsonText

set_option autoImplicit false

namespace Tlm.MetaSchedule

open Cpp

variable {P : JsonValue → Prop}

section

variable (null : P .null) (bool : ∀ value, P (.bool value)) (int : ∀ value, P (.int value)) (float : ∀ bits, P (.float bits)) (str : ∀ data, P (.str data))

include null bool int float str

theorem JsonValue.induct {Q : List JsonValue → Prop} {R : List (Bytes × JsonValue) → Prop}
    (arr : ∀ items, Q items → P (.arr items)) (dict : ∀ entries, R entries → P (.dict entries))
    (nil : Q []) (cons : ∀ item rest, P item → Q rest → Q (item :: rest)) (empty : R [])
    (entry : ∀ key value rest, P value → R rest → R ((key, value) :: rest)) (v : JsonValue) : P v :=
  @JsonValue.rec P Q R (fun entry => P entry.2) null bool int float str arr dict nil cons empty
    (fun pair rest value later => entry pair.1 pair.2 rest value later) (fun _ _ value => value) v

theorem JsonValue.induct_mem
    (arr : ∀ items, (∀ item ∈ items, P item) → P (.arr items))
    (dict : ∀ entries, (∀ entry ∈ entries, P entry.2) → P (.dict entries)) (v : JsonValue) : P v :=
  JsonValue.induct null bool int float str arr dict (List.forall_mem_nil _)
    (fun _ _ first later => List.forall_mem_cons.mpr ⟨first, later⟩) (List.forall_mem_nil _)
    (fun _ _ _ first later => List.forall_mem_cons.mpr ⟨first, later⟩) v

end

namespace JsonValue

mutual

inductive Same : JsonValue → JsonValue → Prop
  | refl (v : JsonValue) : Same v v
  | arr {items items' : List JsonValue} : SameItems items items' → Same (.arr items) (.arr items')
  | dict {entries ordered entries' : List (Bytes × JsonValue)} :
      entries.Perm ordered → SameEntries ordered entries' → Same (.dict entries) (.dict entries')

inductive SameItems : List JsonValue → List JsonValue → Prop
  | nil : SameItems [] []
  | cons {item item' : JsonValue} {rest rest' : List JsonValue} :
      Same item item' → SameItems rest rest' → SameItems (item :: rest) (item' :: rest')

inductive SameEntries : List (Bytes × JsonValue) → List (Bytes × JsonValue) → Prop
  | nil : SameEntries [] []
  | cons (key : Bytes) {value value' : JsonValue} {rest rest' : List (Bytes × JsonValue)} :
      Same value value' → SameEntries rest rest' →
        SameEntries ((key, value) :: rest) ((key, value') :: rest')

end

end JsonValue

namespace JsonValue

-- What `StrEscape` writes without a `\x` escape.
def plainByte (b : UInt8) : Bool :=
  (0x20 ≤ b ∧ b ≤ 0x7E) ∨ b = 0x09 ∨ b = 0x0D ∨ b = 0x0A

mutual

def plain : JsonValue → Bool
  | .null | .bool _ | .int _ | .float _ => true
  | .str data => data.all plainByte
  | .arr items => plainItems items
  | .dict entries => plainEntries entries

def plainItems : List JsonValue → Bool
  | [] => true
  | item :: rest => item.plain && plainItems rest

def plainEntries : List (Bytes × JsonValue) → Bool
  | [] => true
  | (key, value) :: rest => (key.all plainByte && value.plain) && plainEntries rest

end

mutual

def Legal : JsonValue → Prop
  | .null | .bool _ | .int _ | .str _ => True
  | .float _ => False
  | .arr items => LegalItems items
  | .dict entries => (entries.map Prod.fst).Nodup ∧ LegalEntries entries

def LegalItems : List JsonValue → Prop
  | [] => True
  | item :: rest => item.Legal ∧ LegalItems rest

def LegalEntries : List (Bytes × JsonValue) → Prop
  | [] => True
  | (_, value) :: rest => value.Legal ∧ LegalEntries rest

end

end JsonValue

def outcome {α : Type} (good : Bool) (result : α) : Except Fault α :=
  if good then .ok result else .error .check

variable {α : Type}

@[simp] theorem outcome_true (result : α) : outcome true result = .ok result := rfl

@[simp] theorem outcome_false (result : α) : outcome false result = .error .check := rfl

variable {c : UInt8}

theorem scanString_plain (text : Bytes) (noQuote : c ≠ quote) (noEscape : c ≠ backslash) :
    scanString false (c :: text) = (fun read => (c :: read.1, read.2)) <$> scanString false text := by
  simp only [scanString, noQuote, noEscape]
  cases scanString false text <;> rfl

theorem scanString_escaped {escaped : UInt8} (text : Bytes) (meant : unescape escaped = .ok c) :
    scanString false (backslash :: escaped :: text) =
      (fun read => (c :: read.1, read.2)) <$> scanString false text := by
  simp only [scanString, meant]
  cases scanString false text <;> rfl

theorem scanString_escapeByte (c : UInt8) (text : Bytes) :
    scanString false (escapeByte c ++ text) =
      if JsonValue.plainByte c then (fun read => (c :: read.1, read.2)) <$> scanString false text
      else .error .check := by
  unfold escapeByte
  split
  next printable =>
    have simple : JsonValue.plainByte c = true := by
      simp [JsonValue.plainByte, printable.1, printable.2.1]
    rw [simple, if_pos rfl, List.singleton_append, scanString_plain text printable.2.2.2 printable.2.2.1]
  next special =>
    by_cases noQuote : c = quote
    · subst noQuote
      exact scanString_escaped text rfl
    by_cases noEscape : c = backslash
    · subst noEscape
      exact scanString_escaped text rfl
    by_cases noTab : c = 0x09
    · subst noTab
      exact scanString_escaped text rfl
    by_cases noReturn : c = 0x0D
    · subst noReturn
      exact scanString_escaped text rfl
    by_cases noFeed : c = 0x0A
    · subst noFeed
      exact scanString_escaped text rfl
    have hidden : JsonValue.plainByte c = false := by
      simp only [JsonValue.plainByte, noTab, noReturn, noFeed, or_false, decide_eq_false_iff_not]
      exact fun range => special ⟨range.1, range.2, noEscape, noQuote⟩
    rw [if_neg noQuote, if_neg noEscape, if_neg noTab, if_neg noReturn, if_neg noFeed, hidden]
    rfl

theorem scanString_strEscape (data rest : Bytes) :
    scanString false (strEscape data ++ quote :: rest) =
      outcome (data.all JsonValue.plainByte) (data, rest) := by
  induction data with
  | nil => rfl
  | cons c data ih =>
    have step : strEscape (c :: data) ++ quote :: rest =
        escapeByte c ++ (strEscape data ++ quote :: rest) := by
      simp [strEscape]
    rw [step, scanString_escapeByte, ih, List.all_cons]
    cases JsonValue.plainByte c
    · rfl
    · cases data.all JsonValue.plainByte <;> rfl

section

variable (floats : FloatText)

theorem next_string (text : Bytes) :
    next floats (quote :: text) =
      (do
        let (data, rest) ← scanString false text
        return (.string data, rest)) := rfl

theorem next_quoted (data rest : Bytes) :
    next floats (quoted data ++ rest) = outcome (data.all JsonValue.plainByte) (.string data, rest) := by
  have shape : quoted data ++ rest = quote :: (strEscape data ++ quote :: rest) := by
    simp [quoted]
  rw [shape, next_string, scanString_strEscape]
  cases data.all JsonValue.plainByte <;> rfl

def Closed (rest : Bytes) : Prop :=
  ∀ b ∈ rest.head?, isNumberByte b = false

def numeralByte (b : UInt8) : Bool :=
  (0x30 ≤ b ∧ b ≤ 0x39) ∨ b = 0x2D

variable {c : Char}

theorem numeralByte_of_isDigit (digit : c.isDigit = true) :
    numeralByte (UInt8.ofNat c.toNat) = true ∧ c.toNat < 128 := by
  obtain ⟨lower, upper⟩ := isDigit_bounds digit
  refine ⟨?_, by omega⟩
  simp only [numeralByte, UInt8.le_iff_toNat_le, UInt8.toNat_ofNat', decide_eq_true_eq]
  left
  constructor
  · change 48 ≤ _
    omega
  · change _ ≤ 57
    omega

variable {b : UInt8}

theorem numeralByte_facts (numeral : numeralByte b = true) :
    isNumberByte b = true ∧ isFloatByte b = false ∧ isSpaceByte b = false ∧ b ≠ quote ∧
      ∀ entry ∈ literals, entry.1.head? ≠ some b := by
  have heads : literals.all (fun entry => entry.1.head?.all fun x => !numeralByte x) = true := by
    decide
  refine ⟨?_, ?_, ?_, ?_, ?_⟩
  · simp only [numeralByte, decide_eq_true_eq] at numeral
    simp only [isNumberByte, decide_eq_true_eq]
    exact numeral.imp_right fun minus => Or.inr (Or.inl minus)
  · by_contra float
    simp only [Bool.not_eq_false, isFloatByte, decide_eq_true_eq] at float
    rcases float with rfl | rfl | rfl <;> exact absurd numeral (by decide)
  · simp only [numeralByte, UInt8.le_iff_toNat_le, UInt8.ext_iff] at numeral
    simp only [isSpaceByte, UInt8.le_iff_toNat_le, UInt8.ext_iff]
    simp at numeral ⊢
    omega
  · rintro rfl
    exact absurd numeral (by decide)
  · intro entry member head
    have first := List.all_eq_true.mp heads entry member
    rw [head, Option.all_some, numeral] at first
    cases first

theorem next_numeral (rest : Bytes) (numeral : numeralByte b = true) :
    next floats (b :: rest) =
      (do
        let digits := (b :: rest).takeWhile isNumberByte
        ensure .check (digits ≠ [])
        return (← scanNumber floats digits, (b :: rest).drop digits.length)) := by
  obtain ⟨-, -, space, noQuote, heads⟩ := numeralByte_facts numeral
  have none : (literals.findSome? fun entry =>
      (nextLiteral entry.1 (b :: rest)).map fun rest => (entry.2, rest)) = none := by
    rw [List.findSome?_eq_none_iff]
    intro entry member
    have head := heads entry member
    have filled : ∀ entry ∈ literals, entry.1 ≠ [] := by decide
    obtain ⟨x, tail, shape⟩ := List.exists_cons_of_ne_nil (filled entry member)
    have differs : x ≠ b := by
      rintro rfl
      exact head (by rw [shape]; rfl)
    simp [nextLiteral, shape, differs]
  rw [next, List.dropWhile_cons_of_neg (by simp [space])]
  simp only [none, noQuote, if_false]

theorem toString_int_chars (z : Int) :
    (toString z).toList ≠ [] ∧ ∀ c ∈ (toString z).toList, c.isDigit = true ∨ c = '-' := by
  cases z with
  | ofNat n =>
    have text : (toString (Int.ofNat n)).toList = Nat.toDigits 10 n := Nat.toList_repr
    obtain ⟨head, tail, shape, -, digits⟩ := toDigits_cons n
    rw [text, shape]
    exact ⟨by simp, fun c member => .inl (digits c member)⟩
  | negSucc n =>
    obtain ⟨head, tail, shape, -, digits⟩ := toDigits_cons (n + 1)
    rw [toList_negSucc, shape]
    refine ⟨by simp, fun c member => ?_⟩
    rcases List.mem_cons.mp member with rfl | member
    · exact .inr rfl
    · exact .inl (digits c member)

theorem numeral_char (numeral : c.isDigit = true ∨ c = '-') :
    numeralByte (UInt8.ofNat c.toNat) = true ∧ Char.ofNat (UInt8.ofNat c.toNat).toNat = c := by
  have facts : numeralByte (UInt8.ofNat c.toNat) = true ∧ c.toNat < 128 := by
    rcases numeral with digit | rfl
    · exact numeralByte_of_isDigit digit
    · exact ⟨by decide, by decide⟩
  refine ⟨facts.1, ?_⟩
  rw [UInt8.toNat_ofNat', Nat.mod_eq_of_lt (by omega), Char.ofNat_toNat]

theorem next_int (value : Int64) {rest : Bytes} (closed : Closed rest) :
    next floats (ascii (toString value.toInt) ++ rest) = .ok (.integer value, rest) := by
  obtain ⟨filled, chars⟩ := toString_int_chars value.toInt
  have digits : ∀ b ∈ ascii (toString value.toInt), numeralByte b = true := by
    intro b member
    obtain ⟨c, inside, rfl⟩ := List.mem_map.mp member
    exact (numeral_char (chars c inside)).1
  have taken : (ascii (toString value.toInt) ++ rest).takeWhile isNumberByte =
      ascii (toString value.toInt) := by
    rw [List.takeWhile_append_of_pos fun b member => (numeralByte_facts (digits b member)).1]
    cases rest with
    | nil => simp
    | cons b rest => simp [closed b rfl]
  have whole : (ascii (toString value.toInt)).any isFloatByte = false := by
    rw [List.any_eq_false]
    intro b member
    simp [(numeralByte_facts (digits b member)).2.1]
  have text : (ascii (toString value.toInt)).map (fun b => Char.ofNat b.toNat) =
      (toString value.toInt).toList := by
    rw [ascii, List.map_map]
    refine List.map_congr_left (fun c inside => (numeral_char (chars c inside)).2) |>.trans ?_
    exact List.map_id _
  have number : scanNumber floats (ascii (toString value.toInt)) = .ok (.integer value) := by
    rw [scanNumber, whole, text, String.ofList_toList, Int.toString_eq_repr, stol_repr]
  have nonempty : ascii (toString value.toInt) ≠ [] := by
    simpa [ascii] using filled
  obtain ⟨b, tail, shape⟩ := List.exists_cons_of_ne_nil nonempty
  have first := digits b (shape ▸ List.mem_cons_self)
  rw [shape, List.cons_append, next_numeral floats _ first, ← List.cons_append, ← shape, taken]
  refine bind_ok.mpr ⟨(), ensure_ok.mpr (decide_eq_true nonempty), bind_ok.mpr ⟨_, number, ?_⟩⟩
  rw [List.drop_left, pure_ok]

end

section

variable (floats : FloatText)

mutual

-- `dumps` of a value whose maps are sorted already.
def print : JsonValue → Bytes
  | .null => ascii "null"
  | .bool true => ascii "true"
  | .bool false => ascii "false"
  | .int value => ascii (toString value.toInt)
  | .float bits => floats.print bits
  | .str data => quoted data
  | .arr items => ascii "[" ++ separated (printItems items) ++ ascii "]"
  | .dict entries => ascii "\x7b" ++ separated (printEntries entries) ++ ascii "\x7d"

def printItems : List JsonValue → List Bytes
  | [] => []
  | item :: rest => print item :: printItems rest

def printEntries : List (Bytes × JsonValue) → List Bytes
  | [] => []
  | (key, value) :: rest => entryText (key, print value) :: printEntries rest

end

def parseText (fuel : Nat) (text : Bytes) : Except Fault (JsonValue × Bytes) := do
  let (token, rest) ← next floats text
  parseObject floats fuel token rest

variable {v : JsonValue} {rest text : Bytes}

theorem next_print (legal : v.Legal) {token : Token} (closed : Closed rest)
    (run : next floats (print floats v ++ rest) = .ok (token, text)) :
    token ≠ .rightSquare ∧ token ≠ .rightCurly ∧ token ≠ .eof := by
  cases v with
  | null =>
    cases run
    decide
  | bool value => cases value <;> cases run <;> decide
  | int value =>
    rw [print, next_int floats value closed] at run
    cases run
    simp
  | float bits => exact legal.elim
  | str data =>
    rw [print, next_quoted, outcome] at run
    split at run
    · cases run
      simp
    · cases run
  | arr items =>
    cases run
    decide
  | dict entries =>
    cases run
    decide

variable {fuel : Nat}

theorem parseArray_first {results : List JsonValue} :
    parseArray floats (fuel + 1) true results text =
      parseArray floats (fuel + 1) false results (ascii "," ++ text) := rfl

variable {results : List (Bytes × JsonValue)}

theorem parseDict_first :
    parseDict floats (fuel + 1) true results text =
      parseDict floats (fuel + 1) false results (ascii "," ++ text) := rfl

variable {isFirst : Bool}

theorem parseArray_close {results : List JsonValue} :
    parseArray floats (fuel + 1) isFirst results (ascii "]" ++ rest) = .ok (results, rest) := by
  cases isFirst <;> rfl

theorem parseDict_close :
    parseDict floats (fuel + 1) isFirst results (ascii "\x7d" ++ rest) = .ok (results, rest) := by
  cases isFirst <;> rfl

theorem parseArray_item {results : List JsonValue}
    (opens : ∀ {token rest}, next floats text = .ok (token, rest) → token ≠ .rightSquare) :
    parseArray floats (fuel + 1) false results (ascii "," ++ text) = (do
      let read ← parseText floats fuel text
      parseArray floats fuel false (results ++ [read.1]) read.2) := by
  have comma : next floats (ascii "," ++ text) = .ok (.comma, text) := rfl
  rw [parseArray]
  simp only [Bool.false_eq_true, comma, ok_bind, parseText]
  cases run : next floats text with
  | error => rfl
  | ok read => simp only [ok_bind, opens run, if_false]

theorem parseDict_entry (key text : Bytes) :
    parseDict floats (fuel + 2) false results (ascii "," ++ (quoted key ++ (ascii ":" ++ text))) =
      if key.all JsonValue.plainByte then do
        let read ← parseText floats (fuel + 1) text
        parseDict floats (fuel + 1) false (setEntry key read.1 results) read.2
      else .error .check := by
  have comma : next floats (ascii "," ++ (quoted key ++ (ascii ":" ++ text))) =
      .ok (.comma, quoted key ++ (ascii ":" ++ text)) := rfl
  have colon : next floats (ascii ":" ++ text) = .ok (.colon, text) := rfl
  rw [parseDict]
  simp only [comma, ok_bind, next_quoted]
  cases key.all JsonValue.plainByte with
  | false => rfl
  | true =>
    simp only [outcome_true, ok_bind, parseObject, colon, parseText]
    cases next floats text with
    | error => rfl
    | ok read => rfl

def tails (texts : List Bytes) : Bytes :=
  texts.flatMap fun text => ascii "," ++ text

theorem tails_cons (text : Bytes) (texts : List Bytes) :
    tails (text :: texts) = ascii "," ++ text ++ tails texts := by
  simp [tails]

theorem comma_separated (text : Bytes) (texts : List Bytes) :
    ascii "," ++ separated (text :: texts) = tails (text :: texts) := by
  simp [tails, separated]

theorem closed_tails (texts : List Bytes) {close : Bytes} (closed : Closed close) :
    Closed (tails texts ++ close) := by
  cases texts with
  | nil => exact closed
  | cons text texts =>
    intro b member
    cases member
    rfl

theorem print_length_pos (legal : v.Legal) : 1 ≤ (print floats v).length := by
  cases v with
  | int value =>
    rw [print, ascii, List.length_map]
    exact List.length_pos_iff.mpr (toString_int_chars value.toInt).1
  | float => exact legal.elim
  | bool value => cases value <;> simp [print, ascii]
  | null => simp [print, ascii]
  | str => simp [print, quoted]
  | arr => simp [print, ascii]
  | dict => simp [print, ascii]

variable {key : Bytes} {value : JsonValue} {entries : List (Bytes × JsonValue)}

theorem setEntry_fresh (fresh : key ∉ entries.map Prod.fst) :
    setEntry key value entries = entries ++ [(key, value)] := by
  induction entries with
  | nil => rfl
  | cons entry rest ih =>
    rw [List.map_cons, List.mem_cons, not_or] at fresh
    rw [setEntry, if_neg (Ne.symm fresh.1), ih fresh.2, List.cons_append]

-- Enough fuel for a value is the length of its text; a list has a comma before every item.
def ReadsValue (v : JsonValue) : Prop :=
  v.Legal → ∀ {rest : Bytes} {fuel : Nat}, Closed rest → (print floats v).length ≤ fuel →
    parseText floats fuel (print floats v ++ rest) = outcome v.plain (v, rest)

def ReadsItems (items : List JsonValue) : Prop :=
  JsonValue.LegalItems items → ∀ {results : List JsonValue} {rest : Bytes} {fuel : Nat},
    1 ≤ fuel → (tails (printItems floats items)).length ≤ fuel →
    parseArray floats fuel false results (tails (printItems floats items) ++ (ascii "]" ++ rest)) =
      outcome (JsonValue.plainItems items) (results ++ items, rest)

def ReadsEntries (entries : List (Bytes × JsonValue)) : Prop :=
  JsonValue.LegalEntries entries →
    ∀ {results : List (Bytes × JsonValue)} {rest : Bytes} {fuel : Nat}, 1 ≤ fuel →
    ((results ++ entries).map Prod.fst).Nodup →
    (tails (printEntries floats entries)).length ≤ fuel →
    parseDict floats fuel false results
        (tails (printEntries floats entries) ++ (ascii "\x7d" ++ rest)) =
      outcome (JsonValue.plainEntries entries) (results ++ entries, rest)

theorem readsItems_nil : ReadsItems floats [] := by
  intro _ results rest fuel some _
  obtain ⟨fuel, rfl⟩ := Nat.exists_eq_add_of_le' some
  rw [List.append_nil]
  exact parseArray_close floats

variable {items : List JsonValue}

theorem readsItems_cons {item : JsonValue} (first : ReadsValue floats item)
    (later : ReadsItems floats items) : ReadsItems floats (item :: items) := by
  intro legal results rest fuel some enough
  obtain ⟨fuel, rfl⟩ := Nat.exists_eq_add_of_le' some
  have behind : Closed (tails (printItems floats items) ++ (ascii "]" ++ rest)) := by
    apply closed_tails
    intro b member
    cases member
    rfl
  have size := print_length_pos floats legal.1
  rw [printItems, tails_cons, List.length_append, List.length_append] at enough
  change 1 + _ + _ ≤ fuel + 1 at enough
  rw [printItems, tails_cons, List.append_assoc, List.append_assoc,
    parseArray_item floats fun run => (next_print floats legal.1 behind run).1,
    first legal.1 behind (by omega), JsonValue.plainItems]
  cases item.plain with
  | false => rfl
  | true =>
    rw [outcome_true, ok_bind, later legal.2 (by omega) (by omega), List.append_assoc]
    rfl

theorem readsEntries_nil : ReadsEntries floats [] := by
  intro _ results rest fuel some _ _
  obtain ⟨fuel, rfl⟩ := Nat.exists_eq_add_of_le' some
  rw [List.append_nil]
  exact parseDict_close floats

theorem readsEntries_cons (first : ReadsValue floats value) (later : ReadsEntries floats entries) :
    ReadsEntries floats ((key, value) :: entries) := by
  intro legal results rest fuel _ distinct enough
  have behind : Closed (tails (printEntries floats entries) ++ (ascii "\x7d" ++ rest)) := by
    apply closed_tails
    intro b member
    cases member
    rfl
  have fresh : key ∉ results.map Prod.fst := by
    rw [List.map_append, List.nodup_append] at distinct
    intro member
    exact distinct.2.2 key member key (by simp) rfl
  have shape : tails (printEntries floats ((key, value) :: entries)) ++ (ascii "\x7d" ++ rest) =
      ascii "," ++ (quoted key ++ (ascii ":" ++ (print floats value ++
        (tails (printEntries floats entries) ++ (ascii "\x7d" ++ rest))))) := by
    simp [printEntries, tails_cons, entryText]
  rw [printEntries, tails_cons, entryText] at enough
  simp only [List.length_append] at enough
  change 1 + (_ + 1 + _) + _ ≤ fuel at enough
  obtain ⟨fuel, rfl⟩ : ∃ less, fuel = less + 2 := ⟨fuel - 2, by omega⟩
  rw [shape, parseDict_entry, first legal.1 behind (by omega), JsonValue.plainEntries]
  cases key.all JsonValue.plainByte with
  | false => rfl
  | true =>
    cases value.plain with
    | false => rfl
    | true =>
      rw [outcome_true, ok_bind, setEntry_fresh fresh,
        later legal.2 (by omega) (by simpa using distinct) (by omega)]
      simp

theorem readsValue_arr (reads : ReadsItems floats items) : ReadsValue floats (.arr items) := by
  intro legal rest fuel _ enough
  obtain ⟨fuel, rfl⟩ := Nat.exists_eq_add_of_le' ((print_length_pos floats legal).trans enough)
  have body : parseArray floats fuel true [] (separated (printItems floats items) ++ (ascii "]" ++ rest)) =
        outcome (JsonValue.plainItems items) (items, rest) := by
    simp only [print, List.length_append] at enough
    change 1 + _ + 1 ≤ fuel + 1 at enough
    obtain ⟨fuel, rfl⟩ : ∃ less, fuel = less + 1 := ⟨fuel - 1, by omega⟩
    cases items with
    | nil => exact parseArray_close floats
    | cons item items =>
      have whole := comma_separated (print floats item) (printItems floats items)
      have size := congrArg List.length whole
      rw [List.length_append] at size
      change 1 + _ = _ at size
      rw [parseArray_first, ← List.append_assoc, printItems, whole]
      exact reads legal (by omega) (by rw [printItems] at enough ⊢; omega)
  have start : print floats (.arr items) ++ rest =
      ascii "[" ++ (separated (printItems floats items) ++ (ascii "]" ++ rest)) := by
    simp [print]
  have opening : next floats (ascii "[" ++ (separated (printItems floats items) ++ (ascii "]" ++ rest))) =
        .ok (.leftSquare, separated (printItems floats items) ++ (ascii "]" ++ rest)) := rfl
  rw [start, parseText, opening, ok_bind]
  simp only [parseObject, body, JsonValue.plain]
  cases JsonValue.plainItems items <;> rfl

theorem readsValue_dict (reads : ReadsEntries floats entries) : ReadsValue floats (.dict entries) := by
  intro legal rest fuel _ enough
  obtain ⟨fuel, rfl⟩ := Nat.exists_eq_add_of_le' ((print_length_pos floats legal).trans enough)
  have body : parseDict floats fuel true []
      (separated (printEntries floats entries) ++ (ascii "\x7d" ++ rest)) =
        outcome (JsonValue.plainEntries entries) (entries, rest) := by
    simp only [print, List.length_append] at enough
    change 1 + _ + 1 ≤ fuel + 1 at enough
    obtain ⟨fuel, rfl⟩ : ∃ less, fuel = less + 1 := ⟨fuel - 1, by omega⟩
    cases entries with
    | nil => exact parseDict_close floats
    | cons entry entries =>
      have whole := comma_separated (entryText (entry.1, print floats entry.2)) (printEntries floats entries)
      have size := congrArg List.length whole
      rw [List.length_append] at size
      change 1 + _ = _ at size
      rw [parseDict_first, ← List.append_assoc, printEntries, whole]
      exact reads legal.2 (by omega) legal.1 (by rw [printEntries] at enough ⊢; omega)
  have start : print floats (.dict entries) ++ rest =
      ascii "\x7b" ++ (separated (printEntries floats entries) ++ (ascii "\x7d" ++ rest)) := by
    simp [print]
  have opening : next floats
      (ascii "\x7b" ++ (separated (printEntries floats entries) ++ (ascii "\x7d" ++ rest))) =
        .ok (.leftCurly, separated (printEntries floats entries) ++ (ascii "\x7d" ++ rest)) := rfl
  rw [start, parseText, opening, ok_bind]
  simp only [parseObject, body, JsonValue.plain]
  cases JsonValue.plainEntries entries <;> rfl

theorem readsValue (v : JsonValue) : ReadsValue floats v := by
  induction v using JsonValue.induct (Q := ReadsItems floats) (R := ReadsEntries floats) with
  | null =>
    intro legal rest fuel _ enough
    obtain ⟨fuel, rfl⟩ := Nat.exists_eq_add_of_le' ((print_length_pos floats legal).trans enough)
    rfl
  | bool value =>
    intro legal rest fuel _ enough
    obtain ⟨fuel, rfl⟩ := Nat.exists_eq_add_of_le' ((print_length_pos floats legal).trans enough)
    cases value <;> rfl
  | int value =>
    intro legal rest fuel closed enough
    obtain ⟨fuel, rfl⟩ := Nat.exists_eq_add_of_le' ((print_length_pos floats legal).trans enough)
    rw [parseText, print, next_int floats value closed]
    rfl
  | float bits => exact fun legal => legal.elim
  | str data =>
    intro legal rest fuel _ enough
    obtain ⟨fuel, rfl⟩ := Nat.exists_eq_add_of_le' ((print_length_pos floats legal).trans enough)
    rw [parseText, print, next_quoted, JsonValue.plain]
    cases data.all JsonValue.plainByte <;> rfl
  | arr items reads => exact readsValue_arr floats reads
  | dict entries reads => exact readsValue_dict floats reads
  | nil => exact readsItems_nil floats
  | cons item items first later => exact readsItems_cons floats first later
  | empty => exact readsEntries_nil floats
  | entry key value entries first later => exact readsEntries_cons floats first later

theorem loads_print (legal : v.Legal) : loads floats (print floats v) = outcome v.plain v := by
  have closed : Closed [] := by
    intro b member
    cases member
  have whole : print floats v ++ [] = print floats v := List.append_nil _
  have read := readsValue floats v legal closed (Nat.le_succ _)
  have opens := fun {token text} => @next_print floats v [] text legal token closed
  rw [whole] at read opens
  cases run : next floats (print floats v) with
  | error =>
    simp only [parseText, run, error_bind] at read
    simp only [loads, run, error_bind]
    cases plain : v.plain with
    | false => simpa [plain] using read
    | true => simp [plain] at read
  | ok first =>
    simp only [parseText, run, ok_bind] at read
    simp only [loads, run, ok_bind, (opens run).2.2, read]
    cases v.plain <;> rfl

end

namespace JsonValue

mutual

def sorted : JsonValue → JsonValue
  | .null => .null
  | .bool value => .bool value
  | .int value => .int value
  | .float bits => .float bits
  | .str data => .str data
  | .arr items => .arr (sortedItems items)
  | .dict entries => .dict (sortEntries (sortedEntries entries))

def sortedItems : List JsonValue → List JsonValue
  | [] => []
  | item :: rest => item.sorted :: sortedItems rest

def sortedEntries : List (Bytes × JsonValue) → List (Bytes × JsonValue)
  | [] => []
  | (key, value) :: rest => (key, value.sorted) :: sortedEntries rest

end

end JsonValue

open JsonValue

variable {β : Type}

theorem sortEntries_perm (entries : List (Bytes × β)) : (sortEntries entries).Perm entries :=
  List.perm_insertionSort _ _

theorem sortEntries_map {γ : Type} (f : β → γ) (entries : List (Bytes × β)) :
    sortEntries (entries.map fun entry => (entry.1, f entry.2)) =
      (sortEntries entries).map fun entry => (entry.1, f entry.2) := by
  symm
  apply List.map_insertionSort
  exact fun _ _ _ _ => Iff.rfl

theorem sortedItems_eq (items : List JsonValue) : sortedItems items = items.map sorted := by
  induction items with
  | nil => rfl
  | cons item rest ih => rw [sortedItems, ih, List.map_cons]

theorem sortedEntries_eq (entries : List (Bytes × JsonValue)) :
    sortedEntries entries = entries.map fun entry => (entry.1, entry.2.sorted) := by
  induction entries with
  | nil => rfl
  | cons entry rest ih => rw [sortedEntries, ih, List.map_cons]

theorem plainItems_eq (items : List JsonValue) : plainItems items = items.all plain := by
  induction items with
  | nil => rfl
  | cons item rest ih => rw [plainItems, ih, List.all_cons]

theorem plainEntries_eq (entries : List (Bytes × JsonValue)) :
    plainEntries entries = entries.all fun entry => entry.1.all plainByte && entry.2.plain := by
  induction entries with
  | nil => rfl
  | cons entry rest ih => rw [plainEntries, ih, List.all_cons]

variable {items : List JsonValue}

theorem legalItems_iff : LegalItems items ↔ ∀ item ∈ items, item.Legal := by
  induction items with
  | nil => simp [LegalItems]
  | cons item rest ih => rw [LegalItems, ih, List.forall_mem_cons]

variable {entries : List (Bytes × JsonValue)}

theorem legalEntries_iff : LegalEntries entries ↔ ∀ entry ∈ entries, entry.2.Legal := by
  induction entries with
  | nil => simp [LegalEntries]
  | cons entry rest ih => rw [LegalEntries, ih, List.forall_mem_cons]

section

variable (floats : FloatText)

theorem printItems_eq (items : List JsonValue) : printItems floats items = items.map (print floats) := by
  induction items with
  | nil => rfl
  | cons item rest ih => rw [printItems, ih, List.map_cons]

theorem printEntries_eq (entries : List (Bytes × JsonValue)) :
    printEntries floats entries = entries.map fun entry => entryText (entry.1, print floats entry.2) := by
  induction entries with
  | nil => rfl
  | cons entry rest ih => rw [printEntries, ih, List.map_cons]

theorem dumpItems_eq (items : List JsonValue) : dumpItems floats items = items.map (dumps floats) := by
  induction items with
  | nil => rfl
  | cons item rest ih => rw [dumpItems, ih, List.map_cons]

theorem dumpEntries_eq (entries : List (Bytes × JsonValue)) :
    dumpEntries floats entries = entries.map fun entry => (entry.1, dumps floats entry.2) := by
  induction entries with
  | nil => rfl
  | cons entry rest ih => rw [dumpEntries, ih, List.map_cons]

end

theorem sorted_dict (entries : List (Bytes × JsonValue)) :
    (JsonValue.dict entries).sorted =
      .dict ((sortEntries entries).map fun entry => (entry.1, entry.2.sorted)) := by
  rw [sorted, sortedEntries_eq, sortEntries_map sorted]

theorem dumps_eq_print (floats : FloatText) (v : JsonValue) : dumps floats v = print floats v.sorted := by
  induction v using JsonValue.induct_mem with
  | null | int | float | str => rfl
  | bool value => cases value <;> rfl
  | arr items same =>
    have texts : dumpItems floats items = printItems floats (sortedItems items) := by
      rw [dumpItems_eq, printItems_eq, sortedItems_eq, List.map_map]
      exact List.map_congr_left same
    rw [dumps, sorted, print, texts]
  | dict entries same =>
    have texts : dumpEntries floats entries =
        entries.map fun entry => (entry.1, print floats entry.2.sorted) := by
      rw [dumpEntries_eq]
      exact List.map_congr_left fun entry member => by rw [same entry member]
    rw [dumps, sorted_dict, print, texts,
      sortEntries_map (fun value : JsonValue => print floats value.sorted), printEntries_eq,
      List.map_map, List.map_map]
    rfl

theorem sorted_legal (v : JsonValue) : v.Legal → v.sorted.Legal := by
  induction v using JsonValue.induct_mem with
  | null | bool | int | float | str => exact id
  | arr items legal =>
    intro values
    rw [Legal, legalItems_iff] at values
    rw [sorted, Legal, legalItems_iff, sortedItems_eq, List.forall_mem_map]
    exact fun item member => legal item member (values item member)
  | dict entries legal =>
    rintro ⟨distinct, values⟩
    rw [legalEntries_iff] at values
    rw [sorted_dict, Legal, legalEntries_iff, List.map_map, List.forall_mem_map]
    constructor
    · exact ((sortEntries_perm entries).map Prod.fst).nodup_iff.mpr distinct
    · intro entry member
      have origin := (sortEntries_perm entries).mem_iff.mp member
      exact legal entry origin (values entry origin)

theorem sorted_plain (v : JsonValue) : v.sorted.plain = v.plain := by
  induction v using JsonValue.induct_mem with
  | null | bool | int | float | str => rfl
  | arr items same =>
    rw [sorted, plain, plain, plainItems_eq, plainItems_eq, sortedItems_eq, List.all_map]
    rw [Bool.eq_iff_iff, List.all_eq_true, List.all_eq_true]
    exact forall₂_congr fun item member => by rw [Function.comp_apply, same item member]
  | dict entries same =>
    rw [sorted_dict, plain, plain, plainEntries_eq, plainEntries_eq, List.all_map,
      (sortEntries_perm entries).all_eq]
    rw [Bool.eq_iff_iff, List.all_eq_true, List.all_eq_true]
    exact forall₂_congr fun entry member => by rw [Function.comp_apply, same entry member]

theorem sameItems_sorted (same : ∀ item ∈ items, item.Same item.sorted) :
    SameItems items (sortedItems items) := by
  induction items with
  | nil => exact .nil
  | cons item rest ih =>
    rw [List.forall_mem_cons] at same
    exact .cons same.1 (ih same.2)

theorem sameEntries_sorted (same : ∀ entry ∈ entries, entry.2.Same entry.2.sorted) :
    SameEntries entries (entries.map fun entry => (entry.1, entry.2.sorted)) := by
  induction entries with
  | nil => exact .nil
  | cons entry rest ih =>
    rw [List.forall_mem_cons] at same
    exact .cons entry.1 same.1 (ih same.2)

theorem same_sorted (v : JsonValue) : v.Same v.sorted := by
  induction v using JsonValue.induct_mem with
  | null | bool | int | float | str => exact .refl _
  | arr items same => exact .arr (sameItems_sorted same)
  | dict entries same =>
    have order := sortEntries_perm entries
    rw [sorted_dict]
    exact .dict order.symm (sameEntries_sorted fun entry member => same entry (order.mem_iff.mp member))

theorem loads_dumps (floats : FloatText) {v : JsonValue} (legal : v.Legal) :
    loads floats (dumps floats v) = outcome v.plain v.sorted := by
  rw [dumps_eq_print, loads_print floats (sorted_legal v legal), sorted_plain]

theorem loads_dumps_iff (floats : FloatText) {v : JsonValue} (legal : v.Legal) :
    (∃ w, loads floats (dumps floats v) = .ok w ∧ v.Same w) ↔ v.plain = true := by
  rw [loads_dumps floats legal]
  cases v.plain with
  | false => simp
  | true => exact iff_of_true ⟨v.sorted, rfl, same_sorted v⟩ rfl

def noFloats : FloatText := ⟨fun _ => [], fun _ => none⟩

def sampleValue : JsonValue :=
  .dict [(ascii "b", .int (-5)), (ascii "a", .arr [.null, .bool true, .str (ascii "x\n\"")])]

theorem loads_dumps_iff_sample :
    ∃ w, loads noFloats (dumps noFloats sampleValue) = .ok w ∧ sampleValue.Same w := by
  refine (loads_dumps_iff noFloats ?_).mpr rfl
  exact ⟨by decide, trivial, ⟨trivial, trivial, trivial, trivial⟩, trivial⟩

theorem loads_dumps_high_byte :
    dumps noFloats (.str [0xC3]) = ascii "\"\\xC3\"" ∧
      loads noFloats (dumps noFloats (.str [0xC3])) = .error .check :=
  ⟨by decide, rfl⟩

end Tlm.MetaSchedule
