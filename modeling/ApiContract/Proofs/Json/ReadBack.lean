import ApiContract.Proofs.Json.Reading
import ApiContract.Proofs.Json.Scalars
import Mathlib.Data.List.Forall2

/-!
# JSON texts are read back

The text that is written for a value is read as that value, in every layout.  This holds for the
values that JSON has, and everything that is read from a JSON text is one of them.
-/

namespace ApiContract

/-- A value that JSON has: all keys are texts, none is declared twice, whole numbers are not too
long and fractions are numbers of the format. -/
inductive Value.IsPlain : Value → Prop where
  | null : IsPlain .null
  | bool (b : Bool) : IsPlain (.bool b)
  | int {n : Int} (hn : Json.isWritableInt n = true) : IsPlain (.int n)
  | float {x : Binary64} (hx : x.IsRepresentable) : IsPlain (.float x)
  | str (s : String) : IsPlain (.str s)
  | list {items : List Value} (hitems : ∀ item ∈ items, IsPlain item) : IsPlain (.list items)
  | map {entries : Entries} (hdiffer : entries.KeysDiffer)
      (hkeys : ∀ entry ∈ entries, ∃ name, entry.1 = .str name)
      (hvalues : ∀ entry ∈ entries, IsPlain entry.2) : IsPlain (.map entries)

namespace Json

open Binary64 (DecimalText)

variable {budget depth : Nat} {layout : Layout} {rest text : List Char} {v : Value}

/-! ## Blanks -/

theorem skipBlanks_append {blanks : List Char} (hblanks : ∀ c ∈ blanks, isBlank c = true)
    (hrest : ∀ c ∈ rest.head?, isBlank c = false) (position : Nat) :
    ∃ stop, Cursor.skipBlanks ⟨blanks ++ rest, position⟩ = ⟨rest, stop⟩ := by
  have hdrop : (blanks ++ rest).dropWhile isBlank = rest := by
    rw [List.dropWhile_append_of_pos hblanks]
    cases rest with
    | nil => rfl
    | cons c rest => simp [hrest c rfl]
  rw [Cursor.skipBlanks, Cursor.skip, hdrop]
  exact ⟨_, rfl⟩

theorem isBlank_of_mem_lineBreak {c : Char} (hc : c ∈ (lineBreak depth layout).toList) :
    isBlank c = true := by
  cases layout with
  | line => simp [lineBreak] at hc
  | block indent =>
      simp only [lineBreak, String.toList_append, String.toList_ofList] at hc
      rcases List.mem_append.mp hc with hline | hspace
      · have heq : c = '\n' := by simpa using hline
        rw [heq]
        rfl
      · rw [List.eq_of_mem_replicate hspace]
        rfl

theorem exists_blanks (depth : Nat) (layout : Layout) :
    ∃ blanks, (separator depth layout).toList = ',' :: blanks ∧ ∀ c ∈ blanks, isBlank c = true := by
  cases layout with
  | line => exact ⟨[' '], by simp [separator], by simp [isBlank]⟩
  | block indent =>
      refine ⟨(lineBreak depth (.block indent)).toList, ?_, fun _ => isBlank_of_mem_lineBreak⟩
      simp [separator]

/-! ## Texts of values -/

/-- The text of a value starts with a character that is neither a blank nor a closing bracket, nor a
byte order mark. -/
def StartsValue (text : List Char) : Prop :=
  ∃ c rest, text = c :: rest ∧ isBlank c = false ∧ c ≠ ']' ∧ c ≠ '\ufeff'

/-- A text that is read as a value, with a budget of one step per character, unless a number goes
on behind it. -/
structure IsTextOf (text : List Char) (v : Value) : Prop where
  starts : StartsValue text
  finds : ∀ budget rest, text.length < budget → EndsNumber rest → Finds (readValue budget) text rest v

/-- What starts like a word or a number is one. -/
theorem readValue_scalar {c : Cursor} {first : Char} {more : List Char}
    (hrest : c.rest = first :: more) (hfirst : first ≠ '"' ∧ first ≠ '[' ∧ first ≠ '\x7b') :
    readValue (budget + 1) c =
      (words.find? fun word => word.1.isPrefixOf c.rest).elim (readNumber c) fun word =>
        .ok (word.2, c.advance word.1.length) := by
  rw [readValue]
  split
  case h_1 heq => exact absurd (List.cons.inj (hrest.symm.trans heq)).1 hfirst.1
  case h_2 heq => exact absurd (List.cons.inj (hrest.symm.trans heq)).1 hfirst.2.1
  case h_3 heq => exact absurd (List.cons.inj (hrest.symm.trans heq)).1 hfirst.2.2
  case h_4 =>
    cases words.find? fun word => word.1.isPrefixOf c.rest with
    | none => rfl
    | some word => rfl

theorem isTextOf_of_find {first : Char} {more : List Char}
    (hfirst : first ≠ '"' ∧ first ≠ '[' ∧ first ≠ '\x7b')
    (hstarts : isBlank first = false ∧ first ≠ ']' ∧ first ≠ '\ufeff')
    (hfind : ∀ rest, (words.find? fun word => word.1.isPrefixOf (first :: more ++ rest)) =
      some (first :: more, v)) : IsTextOf (first :: more) v where
  starts := ⟨first, more, rfl, hstarts⟩
  finds budget rest hbudget _ position := by
    obtain ⟨budget, rfl⟩ : ∃ b, budget = b + 1 := ⟨budget - 1, by omega⟩
    refine ⟨position + (first :: more).length, (readValue_scalar rfl hfirst).trans ?_⟩
    rw [hfind]
    simp [Cursor.advance]

theorem isTextOf_word (word : List Char × Value) (hword : word ∈ words) :
    IsTextOf word.1 word.2 := by
  simp only [words, List.mem_cons, List.not_mem_nil, or_false] at hword
  rcases hword with rfl | rfl | rfl | rfl | rfl | rfl <;>
    exact isTextOf_of_find (by decide) (by decide) fun _ => rfl

/-- A text that is read as a number and starts with a digit or with a sign and a digit is read as a
value. -/
theorem isTextOf_number {negative : Bool} {digits : List Char}
    (hdigits : ∃ d more, digits = d :: more ∧ d.isDigit = true)
    (hfinds : ∀ rest, EndsNumber rest → Finds readNumber (signText negative ++ digits) rest v) :
    IsTextOf (signText negative ++ digits) v := by
  obtain ⟨d, more, rfl, hd⟩ := hdigits
  have hother (c : Char) (hc : c.isDigit = false) : d ≠ c := by
    rintro rfl
    rw [hd] at hc
    cases hc
  have hfirst : ∃ first rest, signText negative ++ d :: more = first :: rest ∧
      (first = '-' ∨ first = d) := by
    cases negative
    · exact ⟨d, more, rfl, .inr rfl⟩
    · exact ⟨'-', d :: more, rfl, .inl rfl⟩
  have hnone (rest : List Char) : (words.find? fun word =>
      word.1.isPrefixOf (signText negative ++ d :: more ++ rest)) = none := by
    rw [List.find?_eq_none]
    intro word hword
    simp only [words, List.mem_cons, List.not_mem_nil, or_false] at hword
    rcases hword with rfl | rfl | rfl | rfl | rfl | rfl <;> cases negative <;>
      simp [signText, List.isPrefixOf, hother, Ne.symm]
  obtain ⟨first, tail, htext, hfirst⟩ := hfirst
  have hplain (c : Char) (hminus : '-' ≠ c) (hc : c.isDigit = false) : first ≠ c := by
    rcases hfirst with rfl | rfl
    · exact hminus
    · exact hother c hc
  refine ⟨⟨first, tail, htext, ?_, hplain _ (by decide) rfl, hplain _ (by decide) rfl⟩, ?_⟩
  · simp [isBlank, hplain]
  · intro budget rest hbudget hrest position
    obtain ⟨budget, rfl⟩ : ∃ b, budget = b + 1 := ⟨budget - 1, by omega⟩
    obtain ⟨stop, hstop⟩ := hfinds rest hrest position
    refine ⟨stop, (readValue_scalar (c := ⟨_, position⟩) (congrArg (· ++ rest) htext) ?_).trans ?_⟩
    · exact ⟨hplain _ (by decide) rfl, hplain _ (by decide) rfl, hplain _ (by decide) rfl⟩
    · rw [hnone]
      exact hstop

theorem isTextOf_int {n : Int} (hn : isWritableInt n = true) :
    IsTextOf (toString n).toList (.int n) := by
  have hdigits : ∃ d more, Nat.toDigits 10 n.natAbs = d :: more ∧ d.isDigit = true := by
    obtain ⟨d, more, hcons⟩ := List.exists_cons_of_ne_nil (Nat.toDigits_ne_nil (b := 10) (n := n.natAbs))
    exact ⟨d, more, hcons, Text.isDigit_of_mem_toDigits (hcons ▸ List.mem_cons_self)⟩
  rw [toList_toString_int]
  refine isTextOf_number hdigits fun rest hrest => ?_
  rw [← toList_toString_int]
  exact finds_int hn hrest

theorem isTextOf_float {x : Binary64} (hx : x.IsRepresentable) :
    IsTextOf (numberText x).toList (.float x) := by
  cases x with
  | nan => exact isTextOf_word ("NaN".toList, .float .nan) (by simp [words])
  | infinity negative =>
    cases negative with
    | false => exact isTextOf_word ("Infinity".toList, .float (.infinity false)) (by simp [words])
    | true =>
      have hword := isTextOf_word ("-Infinity".toList, .float (.infinity true))
        (by simp [words])
      exact hword
  | finite negative units =>
    obtain ⟨hlimit, hexact⟩ := hx negative units rfl
    obtain ⟨t, ht, htext, -⟩ := Binary64.exists_text hexact hlimit
    have hdigits : ∃ d more, Binary64.magnitudeText units = d :: more ∧ d.isDigit = true := by
      obtain ⟨d, more, hcons⟩ := List.exists_cons_of_ne_nil (whole_ne_nil ht.first)
      rw [← htext, DecimalText.text, hcons]
      exact ⟨d, _, rfl, ht.whole d (hcons ▸ List.mem_cons_self)⟩
    rw [numberText, Binary64.textWith, String.toList_ofList]
    exact isTextOf_number hdigits fun rest hrest => finds_finite hlimit hexact hrest

/-- The text of a string behind its opening quote. -/
def stringTail (s : String) : List Char := s.toList.flatMap escapeChar ++ ['"']

theorem toList_stringText (s : String) : (stringText s).toList = '"' :: stringTail s := by
  rw [stringText, String.toList_ofList]
  rfl

theorem isTextOf_str (s : String) : IsTextOf (stringText s).toList (.str s) := by
  rw [toList_stringText]
  refine ⟨⟨'"', stringTail s, rfl, by decide⟩, fun budget rest hbudget _ position => ?_⟩
  obtain ⟨budget, rfl⟩ : ∃ b, budget = b + 1 := ⟨budget - 1, by omega⟩
  obtain ⟨stop, hstop⟩ := finds_string s rest (position + 1)
  refine ⟨stop, ?_⟩
  have hadvance : Cursor.advance ⟨'"' :: (stringTail s ++ rest), position⟩ 1 =
      ⟨stringTail s ++ rest, position + 1⟩ := rfl
  rw [List.cons_append, readValue, hadvance, stringTail, hstop]
  rfl

/-! ## Collections -/

/-- Blanks never go on with a number. -/
theorem endsNumber_of_blanks {blanks : List Char} (hblanks : ∀ c ∈ blanks, isBlank c = true)
    (hrest : EndsNumber rest) : EndsNumber (blanks ++ rest) := by
  cases blanks with
  | nil => exact hrest
  | cons c blanks =>
      intro first hfirst
      obtain rfl : c = first := Option.some.inj hfirst
      have hblank := hblanks c List.mem_cons_self
      simp only [isBlank, Bool.or_eq_true, beq_iff_eq] at hblank
      rcases hblank with ((rfl | rfl) | rfl) | rfl <;> decide

theorem endsNumber_cons {c : Char}
    (hc : c.isDigit = false ∧ c ≠ '.' ∧ c ≠ 'e' ∧ c ≠ 'E') : EndsNumber (c :: rest) := by
  intro first hfirst
  obtain rfl : c = first := Option.some.inj hfirst
  exact hc

theorem StartsValue.head?_not_blank (hstarts : StartsValue text) (rest : List Char) :
    ∀ c ∈ (text ++ rest).head?, isBlank c = false := by
  obtain ⟨c, more, rfl, hblank, -⟩ := hstarts
  intro first hfirst
  obtain rfl : c = first := Option.some.inj hfirst
  exact hblank

/-- Joined parts start with the first of them. -/
theorem exists_intercalate_cons (mark text : List Char) (others : List (List Char)) :
    ∃ tail, mark.intercalate (text :: others) = text ++ tail := by
  cases others with
  | nil => exact ⟨[], by simp⟩
  | cons second others => exact ⟨_, by rw [List.intercalate_cons_cons, List.append_assoc]⟩

/-- What follows the last part of a collection: blanks and the closing bracket. -/
structure Closes (bracket : Char) (tail rest : List Char) : Prop where
  ends : EndsNumber tail
  skips : ∀ position, ∃ stop, Cursor.skipBlanks ⟨tail, position⟩ = ⟨bracket :: rest, stop⟩

theorem closes_of_blanks {blanks : List Char} {bracket : Char}
    (hblanks : ∀ c ∈ blanks, isBlank c = true) (hbracket : bracket = ']' ∨ bracket = '\x7d') :
    Closes bracket (blanks ++ bracket :: rest) rest := by
  have hplain : isBlank bracket = false ∧ EndsNumber (bracket :: rest) := by
    rcases hbracket with rfl | rfl
    · exact ⟨rfl, endsNumber_cons (by decide)⟩
    · exact ⟨rfl, endsNumber_cons (by decide)⟩
  exact ⟨endsNumber_of_blanks hblanks hplain.2, skipBlanks_append hblanks fun c hc => by
    rw [← Option.some.inj hc]
    exact hplain.1⟩

section Steps

variable {c next : Cursor} {stop : Nat} {more : List Char}

/-- A list ends behind its last item. -/
theorem readItems_last (before : List Value) (hv : readValue budget c = .ok (v, next))
    (hskip : next.skipBlanks = ⟨']' :: rest, stop⟩) :
    readItems (budget + 1) c before = .ok (.list (v :: before).reverse, ⟨rest, stop + 1⟩) := by
  rw [readItems, hv]
  simp [bind, Except.bind, hskip, Cursor.advance]

/-- Behind a comma the next item follows. -/
theorem readItems_more (before : List Value) (stop : Nat)
    (hv : readValue budget c = .ok (v, next))
    (hskip : next.skipBlanks = ⟨',' :: more, stop⟩) :
    readItems (budget + 1) c before =
      readItems budget (Cursor.skipBlanks ⟨more, stop + 1⟩) (v :: before) := by
  rw [readItems, hv]
  simp [bind, Except.bind, hskip, Cursor.advance]

/-- At a cursor there is an entry: its name, a colon and its value, behind which the cursor stops. -/
def FindsEntry (budget : Nat) (c : Cursor) (name : String) (v : Value) (next : Cursor) : Prop :=
  ∃ text position value colon, c = ⟨'"' :: text, position⟩ ∧
    readString (c.advance 1) = .ok (name, ⟨':' :: value, colon⟩) ∧
    readValue budget (Cursor.skipBlanks ⟨value, colon + 1⟩) = .ok (v, next)

/-- A mapping ends behind its last entry. -/
theorem readEntries_last {name : String} (before : Entries)
    (hentry : FindsEntry budget c name v next) (hskip : next.skipBlanks = ⟨'\x7d' :: rest, stop⟩) :
    readEntries (budget + 1) c before =
      .ok (.map (Entries.ofList ((.str name, v) :: before).reverse), ⟨rest, stop + 1⟩) := by
  obtain ⟨text, position, value, colon, rfl, hname, hv⟩ := hentry
  have hadvance : Cursor.advance ⟨':' :: value, colon⟩ 1 = ⟨value, colon + 1⟩ := rfl
  have hcolon : Cursor.skipBlanks ⟨':' :: value, colon⟩ = ⟨':' :: value, colon⟩ := rfl
  rw [readEntries, hname]
  simp only [bind, Except.bind, hcolon, hadvance, hv, hskip]
  rfl

/-- Behind a comma the next entry follows. -/
theorem readEntries_more {name : String} (before : Entries) (stop : Nat)
    (hentry : FindsEntry budget c name v next) (hskip : next.skipBlanks = ⟨',' :: more, stop⟩) :
    readEntries (budget + 1) c before =
      readEntries budget (Cursor.skipBlanks ⟨more, stop + 1⟩) ((.str name, v) :: before) := by
  obtain ⟨text, position, value, colon, rfl, hname, hv⟩ := hentry
  have hadvance : Cursor.advance ⟨':' :: value, colon⟩ 1 = ⟨value, colon + 1⟩ := rfl
  have hcolon : Cursor.skipBlanks ⟨':' :: value, colon⟩ = ⟨':' :: value, colon⟩ := rfl
  rw [readEntries, hname]
  simp only [bind, Except.bind, hcolon, hadvance, hv, hskip]
  rfl

end Steps

section Collections

variable {blanks tail : List Char} {texts : List (List Char)}
  (hblanks : ∀ c ∈ blanks, isBlank c = true)

include hblanks

/-- Between two parts there is a comma, and blanks that are skipped. -/
theorem skipBlanks_mark {second : List Char} (others : List (List Char)) (tail : List Char)
    (hsecond : ∀ more, ∀ c ∈ (second ++ more).head?, isBlank c = false) (position : Nat) :
    ∃ stop, Cursor.skipBlanks
      ⟨blanks ++ ((',' :: blanks).intercalate (second :: others) ++ tail), position⟩ =
        ⟨(',' :: blanks).intercalate (second :: others) ++ tail, stop⟩ := by
  obtain ⟨joined, hjoined⟩ := exists_intercalate_cons (',' :: blanks) second others
  refine skipBlanks_append hblanks ?_ position
  rw [hjoined, List.append_assoc]
  exact hsecond _

/-- The items of a list are read from their texts. -/
theorem readItems_intercalate {items : List Value} (hitems : List.Forall₂ IsTextOf texts items)
    (hne : texts ≠ []) (hclose : Closes ']' tail rest)
    (hbudget : ((',' :: blanks).intercalate texts).length + 1 < budget) (before : List Value)
    (position : Nat) :
    ∃ stop, readItems budget ⟨(',' :: blanks).intercalate texts ++ tail, position⟩ before =
      .ok (.list (before.reverse ++ items), ⟨rest, stop⟩) := by
  induction hitems generalizing budget before position with
  | nil => exact absurd rfl hne
  | @cons text item texts items hitem hitems ih =>
      obtain ⟨budget, rfl⟩ : ∃ b, budget = b + 1 := ⟨budget - 1, by omega⟩
      cases hitems with
      | nil =>
          rw [List.intercalate_singleton] at hbudget ⊢
          obtain ⟨next, hnext⟩ := hitem.finds budget tail (by omega) hclose.ends position
          obtain ⟨stop, hstop⟩ := hclose.skips next
          refine ⟨stop + 1, ?_⟩
          rw [readItems_last before hnext hstop, List.reverse_cons]
      | @cons second _ others _ hsecond _ =>
          rw [List.intercalate_cons_cons] at hbudget ⊢
          simp only [List.length_append, List.length_cons] at hbudget
          rw [List.append_assoc, List.append_assoc, List.cons_append]
          have hcomma (more : List Char) : EndsNumber (',' :: more) := endsNumber_cons (by decide)
          obtain ⟨next, hnext⟩ := hitem.finds budget _ (by omega) (hcomma _) position
          obtain ⟨inside, hinside⟩ :=
            skipBlanks_mark hblanks others tail hsecond.starts.head?_not_blank (next + 1)
          have hfewer : ((',' :: blanks).intercalate (second :: others)).length + 1 < budget := by
            omega
          obtain ⟨stop, hstop⟩ := ih (by simp) hfewer (item :: before) inside
          refine ⟨stop, ?_⟩
          rw [readItems_more before next hnext rfl, hinside, hstop, List.reverse_cons,
            List.append_assoc]
          rfl

/-- The text of an entry. -/
def IsTextOfEntry (text : List Char) (entry : Value × Value) : Prop :=
  ∃ name value, text = '"' :: (stringTail name ++ ':' :: ' ' :: value) ∧ entry.1 = .str name ∧
    IsTextOf value entry.2

omit hblanks in
/-- An entry is read from its text. -/
theorem IsTextOfEntry.finds {text : List Char} {entry : Value × Value}
    (hentry : IsTextOfEntry text entry) (hbudget : text.length < budget) (htail : EndsNumber tail)
    (position : Nat) :
    ∃ name next, entry.1 = .str name ∧
      FindsEntry budget ⟨text ++ tail, position⟩ name entry.2 ⟨tail, next⟩ := by
  obtain ⟨name, value, rfl, hname, hvalue⟩ := hentry
  obtain ⟨colon, hcolon⟩ := finds_string name (':' :: ' ' :: (value ++ tail)) (position + 1)
  obtain ⟨inside, hinside⟩ := skipBlanks_append
    (show ∀ c ∈ [' '], isBlank c = true by simp [isBlank])
    (hvalue.starts.head?_not_blank tail) (colon + 1)
  simp only [List.length_cons, List.length_append] at hbudget
  obtain ⟨next, hnext⟩ := hvalue.finds budget tail (by omega) htail inside
  have htext : '"' :: (stringTail name ++ ':' :: ' ' :: value) ++ tail =
      '"' :: (stringTail name ++ ':' :: ' ' :: (value ++ tail)) := by simp
  rw [htext]
  refine ⟨name, next, hname, _, position, _, colon, rfl, hcolon, ?_⟩
  rw [← hnext, ← hinside]
  rfl

/-- The entries of a mapping are read from their texts. -/
theorem readEntries_intercalate {entries : Entries}
    (hentries : List.Forall₂ IsTextOfEntry texts entries) (hne : texts ≠ [])
    (hclose : Closes '\x7d' tail rest)
    (hbudget : ((',' :: blanks).intercalate texts).length + 1 < budget) (before : Entries)
    (position : Nat) :
    ∃ stop, readEntries budget ⟨(',' :: blanks).intercalate texts ++ tail, position⟩ before =
      .ok (.map (Entries.ofList (before.reverse ++ entries)), ⟨rest, stop⟩) := by
  induction hentries generalizing budget before position with
  | nil => exact absurd rfl hne
  | @cons text entry texts entries hentry hentries ih =>
      obtain ⟨budget, rfl⟩ : ∃ b, budget = b + 1 := ⟨budget - 1, by omega⟩
      cases hentries with
      | nil =>
          rw [List.intercalate_singleton] at hbudget ⊢
          obtain ⟨name, next, hname, hfinds⟩ :=
            hentry.finds (show text.length < budget by omega) hclose.ends position
          obtain ⟨stop, hstop⟩ := hclose.skips next
          refine ⟨stop + 1, ?_⟩
          rw [readEntries_last before hfinds hstop, List.reverse_cons, ← hname]
      | @cons second _ others _ hsecond _ =>
          rw [List.intercalate_cons_cons] at hbudget ⊢
          simp only [List.length_append, List.length_cons] at hbudget
          rw [List.append_assoc, List.append_assoc, List.cons_append]
          have hcomma (more : List Char) : EndsNumber (',' :: more) := endsNumber_cons (by decide)
          have hquote : ∀ more, ∀ c ∈ (second ++ more).head?, isBlank c = false := by
            obtain ⟨_, _, rfl, -, -⟩ := hsecond
            intro more c hc
            rw [← Option.some.inj hc]
            rfl
          obtain ⟨name, next, hname, hfinds⟩ :=
            hentry.finds (show text.length < budget by omega) (hcomma _) position
          obtain ⟨inside, hinside⟩ := skipBlanks_mark hblanks others tail hquote (next + 1)
          have hfewer : ((',' :: blanks).intercalate (second :: others)).length + 1 < budget := by
            omega
          obtain ⟨stop, hstop⟩ := ih (by simp) hfewer ((.str name, entry.2) :: before) inside
          refine ⟨stop, ?_⟩
          rw [readEntries_more before next hfinds rfl, hinside, hstop, List.reverse_cons,
            List.append_assoc, ← hname]
          rfl

end Collections

/-! ## Values -/

theorem toList_bracketed {opening closing : String} {parts : List String} (hne : parts ≠ []) :
    (bracketed opening closing layout depth parts).toList =
      opening.toList ++ ((lineBreak (depth + 1) layout).toList ++
        ((separator (depth + 1) layout).toList.intercalate (parts.map String.toList) ++
          ((lineBreak depth layout).toList ++ closing.toList))) := by
  rw [bracketed, if_neg (by simpa using hne)]
  simp only [String.toList_append, String.toList_intercalate, List.append_assoc]

/-- Joined parts between brackets are the text of what a reader of such parts makes of them. -/
theorem isTextOf_parts {joined : List Char} (opening closing first : Char)
    (readParts : Nat → Cursor → Except Fault (Reading Value))
    (hopening : isBlank opening = false ∧ opening ≠ ']' ∧ opening ≠ '\ufeff')
    (hclosing : closing = ']' ∨ closing = '\x7d') (hfirst : joined.head? = some first)
    (hplain : isBlank first = false ∧ first ≠ closing)
    (hopens : ∀ budget more position inside, Cursor.skipBlanks ⟨more, position + 1⟩ = inside →
      inside.rest.head? ≠ some closing →
        readValue (budget + 1) ⟨opening :: more, position⟩ = readParts budget inside)
    (hparts : ∀ budget tail rest position, joined.length + 1 < budget → Closes closing tail rest →
      ∃ stop, readParts budget ⟨joined ++ tail, position⟩ = .ok (v, ⟨rest, stop⟩)) :
    IsTextOf (opening :: ((lineBreak (depth + 1) layout).toList ++
      (joined ++ ((lineBreak depth layout).toList ++ [closing])))) v where
  starts := ⟨opening, _, rfl, hopening⟩
  finds budget rest hbudget _ position := by
    obtain ⟨budget, rfl⟩ : ∃ b, budget = b + 1 := ⟨budget - 1, by omega⟩
    have hhead (tail : List Char) : (joined ++ tail).head? = some first := by
      rw [List.head?_append, hfirst]
      rfl
    have hopened : ∀ c ∈ (lineBreak (depth + 1) layout).toList, isBlank c = true :=
      fun _ => isBlank_of_mem_lineBreak
    have hclosed : ∀ c ∈ (lineBreak depth layout).toList, isBlank c = true :=
      fun _ => isBlank_of_mem_lineBreak
    have hinner (tail : List Char) : ∀ c ∈ (joined ++ tail).head?, isBlank c = false := by
      simp [hhead, hplain.1]
    obtain ⟨inside, hinside⟩ := skipBlanks_append hopened
      (hinner ((lineBreak depth layout).toList ++ closing :: rest)) (position + 1)
    simp only [List.length_cons, List.length_append, List.length_nil] at hbudget
    obtain ⟨stop, hstop⟩ := hparts budget _ rest inside (by omega)
      (closes_of_blanks hclosed hclosing)
    refine ⟨stop, ?_⟩
    simp only [List.cons_append, List.append_assoc, List.nil_append]
    rw [hopens budget _ position _ hinside (by simpa [hhead] using hplain.2), hstop]

/-- A list that is not empty is read item by item. -/
theorem readValue_list {more : List Char} {position : Nat} {inside : Cursor}
    (hinside : Cursor.skipBlanks ⟨more, position + 1⟩ = inside)
    (hopen : inside.rest.head? ≠ some ']') :
    readValue (budget + 1) ⟨'[' :: more, position⟩ = readItems budget inside [] := by
  have hadvance : Cursor.advance ⟨'[' :: more, position⟩ 1 = ⟨more, position + 1⟩ := rfl
  rw [readValue, hadvance, hinside]
  exact if_neg hopen

/-- A mapping that is not empty is read entry by entry. -/
theorem readValue_map {more : List Char} {position : Nat} {inside : Cursor}
    (hinside : Cursor.skipBlanks ⟨more, position + 1⟩ = inside)
    (hopen : inside.rest.head? ≠ some '\x7d') :
    readValue (budget + 1) ⟨'\x7b' :: more, position⟩ = readEntries budget inside [] := by
  have hadvance : Cursor.advance ⟨'\x7b' :: more, position⟩ 1 = ⟨more, position + 1⟩ := rfl
  rw [readValue, hadvance, hinside]
  exact if_neg hopen

/-- Parts that are the texts of items make the text of the list. -/
theorem isTextOf_list {parts : List String} {items : List Value}
    (hparts : List.Forall₂ IsTextOf (parts.map String.toList) items) :
    IsTextOf (bracketed "[" "]" layout depth parts).toList (.list items) := by
  cases parts with
  | nil =>
      cases hparts
      have htext : (bracketed "[" "]" layout depth []).toList = ['[', ']'] := by simp [bracketed]
      rw [htext]
      refine ⟨⟨'[', [']'], rfl, by decide⟩, fun budget rest hbudget _ position => ?_⟩
      obtain ⟨budget, rfl⟩ : ∃ b, budget = b + 1 := ⟨budget - 1, by omega⟩
      exact ⟨position + 1 + 1, by rw [List.cons_append, readValue]; rfl⟩
  | cons part parts =>
      obtain ⟨blanks, hmark, hblanks⟩ := exists_blanks (depth + 1) layout
      have hstarts : StartsValue part.toList := by
        cases hparts with
        | cons hpart _ => exact hpart.starts
      obtain ⟨c, more, hpart, hblank, hbracket, -⟩ := hstarts
      obtain ⟨tail, htail⟩ :=
        exists_intercalate_cons (',' :: blanks) part.toList (parts.map String.toList)
      rw [toList_bracketed (by simp), hmark]
      refine isTextOf_parts '[' ']' c (readItems · · []) (by decide) (.inl rfl) ?_
        ⟨hblank, hbracket⟩
        (fun _ _ _ _ => readValue_list) fun _ _ _ position hbudget hclose => ?_
      · rw [List.map_cons, htail, hpart]
        rfl
      · exact readItems_intercalate hblanks hparts (by simp) hclose hbudget [] position

/-- Parts that are the texts of entries make the text of the mapping. -/
theorem isTextOf_map {parts : List String} {entries : Entries} (hdiffer : entries.KeysDiffer)
    (hparts : List.Forall₂ IsTextOfEntry (parts.map String.toList) entries) :
    IsTextOf (bracketed "\x7b" "\x7d" layout depth parts).toList (.map entries) := by
  cases parts with
  | nil =>
      cases hparts
      have htext : (bracketed "\x7b" "\x7d" layout depth []).toList = ['\x7b', '\x7d'] := by
        simp [bracketed]
      rw [htext]
      refine ⟨⟨'\x7b', ['\x7d'], rfl, by decide⟩, fun budget rest hbudget _ position => ?_⟩
      obtain ⟨budget, rfl⟩ : ∃ b, budget = b + 1 := ⟨budget - 1, by omega⟩
      exact ⟨position + 1 + 1, by rw [List.cons_append, readValue]; rfl⟩
  | cons part parts =>
      obtain ⟨blanks, hmark, hblanks⟩ := exists_blanks (depth + 1) layout
      obtain ⟨more, hpart⟩ : ∃ more, part.toList = '"' :: more := by
        cases hparts with
        | cons hpart _ =>
            obtain ⟨name, value, hpart, -⟩ := hpart
            exact ⟨_, hpart⟩
      obtain ⟨tail, htail⟩ :=
        exists_intercalate_cons (',' :: blanks) part.toList (parts.map String.toList)
      rw [toList_bracketed (by simp), hmark]
      refine isTextOf_parts '\x7b' '\x7d' '"' (readEntries · · []) (by decide) (.inr rfl) ?_
        (by decide)
        (fun _ _ _ _ => readValue_map) fun _ _ _ position hbudget hclose => ?_
      · rw [List.map_cons, htail, hpart]
        rfl
      · have hread := readEntries_intercalate hblanks hparts (by simp) hclose hbudget [] position
        rwa [List.reverse_nil, List.nil_append, hdiffer.ofList_eq] at hread

theorem renderItems_eq_map (items : List Value) :
    renderItems layout depth items = items.map (render layout depth) := by
  induction items with
  | nil => rfl
  | cons item items ih => rw [renderItems, ih, List.map_cons]

theorem renderEntries_eq_map (entries : Entries) :
    renderEntries layout depth entries = entries.map fun entry =>
      stringText ((keyName? entry.1).getD "") ++ ": " ++ render layout depth entry.2 := by
  induction entries with
  | nil => rfl
  | cons entry entries ih => rw [renderEntries, ih, List.map_cons]

/-- What is written for a value is a text of it. -/
theorem isTextOf_render (layout : Layout) (hv : v.IsPlain) (depth : Nat) :
    IsTextOf (render layout depth v).toList v := by
  induction hv generalizing depth with
  | null =>
      rw [render]
      exact isTextOf_word ("null".toList, .null) (by simp [words])
  | bool b =>
      rw [render]
      cases b with
      | false => exact isTextOf_word ("false".toList, .bool false) (by simp [words])
      | true => exact isTextOf_word ("true".toList, .bool true) (by simp [words])
  | int hn =>
      rw [render]
      exact isTextOf_int hn
  | float hx =>
      rw [render]
      exact isTextOf_float hx
  | str s =>
      rw [render]
      exact isTextOf_str s
  | list hitems ih =>
      rw [render, renderItems_eq_map]
      refine isTextOf_list ?_
      rw [List.map_map, List.forall₂_map_left_iff]
      exact List.forall₂_same.mpr fun item hitem => ih item hitem (depth + 1)
  | map hdiffer hkeys hvalues ih =>
      rw [render, renderEntries_eq_map]
      refine isTextOf_map hdiffer ?_
      rw [List.map_map, List.forall₂_map_left_iff]
      refine List.forall₂_same.mpr fun entry hentry => ?_
      obtain ⟨name, hname⟩ := hkeys entry hentry
      refine ⟨name, _, ?_, hname, ih entry hentry (depth + 1)⟩
      simp [hname, keyName?, toList_stringText]

/-- The text of a value is read as the value, also with blanks behind it. -/
theorem read_render (layout : Layout) (hv : v.IsPlain) {blanks : List Char}
    (hblanks : ∀ c ∈ blanks, isBlank c = true) :
    read ((render layout 0 v).toList ++ blanks) = .ok v := by
  obtain ⟨hstarts, hfinds⟩ := isTextOf_render layout hv 0
  generalize (render layout 0 v).toList = text at *
  have hends : EndsNumber blanks := by
    have hnothing : EndsNumber [] := fun c hc => by cases hc
    simpa using endsNumber_of_blanks hblanks hnothing
  have hmark : (text ++ blanks).head? ≠ some '\ufeff' := by
    obtain ⟨c, more, rfl, -, -, hc⟩ := hstarts
    exact fun hmark => hc (Option.some.inj hmark)
  obtain ⟨start, hstart⟩ := skipBlanks_append (show ∀ c ∈ [], isBlank c = true by simp)
    (hstarts.head?_not_blank blanks) 0
  obtain ⟨next, hnext⟩ := hfinds ((text ++ blanks).length + 1) blanks
    (by simp only [List.length_append]; omega) hends start
  obtain ⟨stop, hstop⟩ := skipBlanks_append hblanks
    (show ∀ c ∈ [].head?, isBlank c = false by simp) next
  rw [List.append_nil] at hstop
  rw [List.nil_append] at hstart
  rw [read, if_neg hmark, hstart, hnext]
  simp [bind, Except.bind, hstop]

/-! ## Texts that were read -/

theorem isPlain_of_readNumber {c : Cursor} {next : Cursor} (hread : readNumber c = .ok (v, next)) :
    v.IsPlain := by
  obtain ⟨n, rfl, hwritable⟩ | ⟨_, _, _, rfl⟩ := cases_of_readNumber hread
  · exact .int hwritable
  · exact .float (Binary64.isRepresentable_ofDecimal _ _ _)

/-- Whatever is read from a JSON text is a value that JSON has. -/
theorem readInvariant_isPlain : ReadInvariant Value.IsPlain where
  text := .str
  word word hword := by
    simp only [words, List.mem_cons, List.not_mem_nil, or_false] at hword
    rcases hword with rfl | rfl | rfl | rfl | rfl | rfl
    · exact .null
    · exact .bool true
    · exact .bool false
    all_goals
      refine .float fun negative units heq => ?_
      cases heq
  number := isPlain_of_readNumber
  list := .list
  map {es} hentries := by
    unfold Entries.ofList
    refine List.foldlRecOn es _ (motive := fun acc => (Value.map acc).IsPlain)
      (.map List.Pairwise.nil (by simp) (by simp)) ?_
    intro acc hacc entry hentry
    obtain ⟨hkey, hvalue⟩ := hentries entry hentry
    cases hacc with
    | map hdiffer hkeys hvalues =>
        refine .map (hdiffer.insert _ _) (fun other hother => ?_) fun other hother => ?_
        · rcases Entries.mem_of_mem_insert hother with hold | ⟨-, hnew | hknown⟩
          · exact hkeys other hold
          · exact hnew ▸ hkey
          · obtain ⟨known, hmem, heq⟩ := List.mem_map.mp hknown
            exact heq ▸ hkeys known hmem
        · rcases Entries.mem_of_mem_insert hother with hold | ⟨hnew, -⟩
          · exact hvalues other hold
          · exact hnew ▸ hvalue

/-- A text that was read can be written anew, in any layout, and is read as the same value. -/
theorem read_render_of_read (layout : Layout) (hread : read text = .ok v) :
    read (render layout 0 v).toList = .ok v := by
  simpa using read_render layout (readInvariant_isPlain.of_read hread)
    (show ∀ c ∈ [], isBlank c = true by simp)

end Json

end ApiContract
