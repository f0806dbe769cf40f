import ApiContract.Json.Reader
import ApiContract.Proofs.Json.Laws
import ApiContract.Proofs.Schema.Success
import ApiContract.Proofs.Schema.Unambiguous
import ApiContract.Proofs.Text.Numeral

/-!
# What JSON texts hold

Whatever is read from a JSON text has a JSON text itself.  All names are texts, and a whole number
has at most as many digits as can be written, because longer ones are refused.  No mapping that is
read declares a name twice.  Both are properties that every step of the reader keeps.
-/

namespace ApiContract.Json

open Schema (bind_eq_ok_iff)

variable {c rest : Cursor} {v : Value} {budget : Nat}

theorem getD_digitsValue?_lt {cs : List Char} {limit : Nat} (hlength : cs.length ≤ limit) :
    (Text.digitsValue? 10 cs).getD 0 < Nat.pow 10 limit := by
  cases hvalue : Text.digitsValue? 10 cs with
  | none => exact Nat.pow_pos (by decide)
  | some n =>
      exact Nat.lt_of_lt_of_le (Text.digitsValue?_lt hvalue)
        (Nat.pow_le_pow_right (by decide) hlength)

/-- A whole number of few enough digits can be written again. -/
theorem isWritableInt_of_digits {cs : List Char} {negative : Bool}
    (hlength : cs.length ≤ Text.digitLimit) :
    isWritableInt (if negative then -(((Text.digitsValue? 10 cs).getD 0 : Nat) : Int)
      else ((Text.digitsValue? 10 cs).getD 0 : Nat)) = true := by
  have hlt := getD_digitsValue?_lt hlength
  have habs : (if negative = true then -(((Text.digitsValue? 10 cs).getD 0 : Nat) : Int)
      else ((Text.digitsValue? 10 cs).getD 0 : Nat)).natAbs =
      (Text.digitsValue? 10 cs).getD 0 := by
    split <;> simp
  rw [isWritableInt, habs]
  exact decide_eq_true hlt

/-- A number is a whole number that can be written again, or it has a fraction or an exponent and is
rounded. -/
theorem cases_of_readNumber (hread : readNumber c = .ok (v, rest)) :
    (∃ n : Int, v = .int n ∧ isWritableInt n = true) ∨
      ∃ negative digits exponent, v = .float (.ofDecimal negative digits exponent) := by
  unfold readNumber at hread
  split at hread
  rename_i negative unsigned _
  dsimp only at hread
  split at hread
  · cases hread
  · split at hread
    · rename_i hwhole
      split at hread
      · cases hread
      · rename_i hlimit
        cases hread
        refine .inl ⟨_, rfl, ?_⟩
        apply isWritableInt_of_digits
        simp only [Bool.and_eq_true, decide_eq_true_eq] at hwhole
        obtain ⟨hfraction, hexponent⟩ := hwhole
        rw [hexponent, hfraction, List.length_take]
        omega
    · cases hread
      exact .inr ⟨_, _, _, rfl⟩

theorem isJson_of_readNumber (hread : readNumber c = .ok (v, rest)) : v.isJson = true := by
  obtain ⟨n, rfl, hwritable⟩ | ⟨_, _, _, rfl⟩ := cases_of_readNumber hread
  · simpa only [Value.isJson] using hwritable
  · rfl

theorem isJson_of_mem_words {word : List Char × Value} (hword : word ∈ words) :
    word.2.isJson = true := by
  simp only [words, List.mem_cons, List.not_mem_nil, or_false] at hword
  rcases hword with rfl | rfl | rfl | rfl | rfl | rfl <;> rfl

theorem isJson_ofList {es : Entries} (hjson : (Value.map es).isJson = true) :
    (Value.map (Entries.ofList es)).isJson = true := by
  unfold Entries.ofList
  refine List.foldlRecOn es _ (motive := fun acc => (Value.map acc).isJson = true) rfl ?_
  intro acc hacc entry hentry
  obtain ⟨hkey, hvalue⟩ := Value.isJson_map_iff.mp hjson entry hentry
  exact Value.isJson_insert hacc hkey hvalue

/-- A property of values that every step of the reader keeps: texts, words and numbers have it,
lists have it with their items, and mappings of texts, put together entry by entry, have it with
their values. -/
structure ReadInvariant (holds : Value → Prop) : Prop where
  text : ∀ s, holds (.str s)
  word : ∀ word ∈ words, holds word.2
  number : ∀ {c v rest}, readNumber c = .ok (v, rest) → holds v
  list : ∀ {items}, (∀ item ∈ items, holds item) → holds (.list items)
  map : ∀ {es : Entries}, (∀ entry ∈ es, (∃ name, entry.1 = .str name) ∧ holds entry.2) →
    holds (.map (Entries.ofList es))

namespace ReadInvariant

variable {holds : Value → Prop}

/-- The three readers of values, together along their budget. -/
theorem readers (hinv : ReadInvariant holds) (budget : Nat) :
    (∀ c v rest, readValue budget c = .ok (v, rest) → holds v) ∧
    (∀ c before v rest, (∀ item ∈ before, holds item) →
      readItems budget c before = .ok (v, rest) → holds v) ∧
    (∀ c before v rest, (∀ entry ∈ before, (∃ name, entry.1 = .str name) ∧ holds entry.2) →
      readEntries budget c before = .ok (v, rest) → holds v) := by
  induction budget with
  | zero =>
      refine ⟨?_, ?_, ?_⟩ <;> intros <;> simp_all [readValue, readItems, readEntries, fail]
  | succ budget ih =>
      obtain ⟨hvalue, hitems, hentries⟩ := ih
      refine ⟨?_, ?_, ?_⟩
      · intro c v rest hread
        rw [readValue] at hread
        split at hread
        · obtain ⟨⟨s, next⟩, -, hread⟩ := bind_eq_ok_iff.mp hread
          cases hread
          exact hinv.text s
        · dsimp only at hread
          split at hread
          · cases hread
            exact hinv.list (List.forall_mem_nil _)
          · exact hitems _ _ _ _ (List.forall_mem_nil _) hread
        · dsimp only at hread
          split at hread
          · cases hread
            exact hinv.map (List.forall_mem_nil _)
          · exact hentries _ _ _ _ (List.forall_mem_nil _) hread
        · split at hread
          · rename_i word hword
            cases hread
            exact hinv.word word (List.mem_of_find?_eq_some hword)
          · exact hinv.number hread
      · intro c before v rest hbefore hread
        rw [readItems] at hread
        obtain ⟨⟨item, next⟩, hitem, hread⟩ := bind_eq_ok_iff.mp hread
        have hall : ∀ x ∈ item :: before, holds x :=
          List.forall_mem_cons.mpr ⟨hvalue _ _ _ hitem, hbefore⟩
        dsimp only at hread
        split at hread
        · cases hread
          exact hinv.list fun x hx => hall x (List.mem_reverse.mp hx)
        · exact hitems _ _ _ _ hall hread
        · cases hread
      · intro c before v rest hbefore hread
        rw [readEntries] at hread
        split at hread
        · obtain ⟨⟨name, next⟩, -, hread⟩ := bind_eq_ok_iff.mp hread
          dsimp only at hread
          split at hread
          · obtain ⟨⟨item, after⟩, hitem, hread⟩ := bind_eq_ok_iff.mp hread
            have hall : ∀ entry ∈ (Value.str name, item) :: before,
                (∃ name, entry.1 = .str name) ∧ holds entry.2 :=
              List.forall_mem_cons.mpr ⟨⟨⟨name, rfl⟩, hvalue _ _ _ hitem⟩, hbefore⟩
            dsimp only at hread
            split at hread
            · cases hread
              exact hinv.map fun entry hentry => hall entry (List.mem_reverse.mp hentry)
            · exact hentries _ _ _ _ hall hread
            · cases hread
          · cases hread
        · cases hread

theorem of_read (hinv : ReadInvariant holds) {text : List Char} (hread : read text = .ok v) :
    holds v := by
  unfold read at hread
  split at hread
  · cases hread
  · obtain ⟨⟨found, next⟩, hfound, hread⟩ := bind_eq_ok_iff.mp hread
    dsimp only at hread
    split at hread
    · cases hread
      exact (hinv.readers _).1 _ _ _ hfound
    · cases hread

end ReadInvariant

theorem readInvariant_isJson : ReadInvariant (·.isJson = true) where
  text _ := rfl
  word _ := isJson_of_mem_words
  number := isJson_of_readNumber
  list := Value.isJson_list_iff.mpr
  map hentries := isJson_ofList <| Value.isJson_map_iff.mpr fun entry hentry => by
    obtain ⟨⟨name, hname⟩, hvalue⟩ := hentries entry hentry
    exact ⟨by rw [hname]; rfl, hvalue⟩

theorem isJson_of_read {text : List Char} (hread : read text = .ok v) : v.isJson = true :=
  readInvariant_isJson.of_read hread

/-! ## Names that differ -/

/-- A number has no entries. -/
theorem isUnambiguous_of_readNumber (hread : readNumber c = .ok (v, rest)) :
    v.isUnambiguous = true := by
  obtain ⟨_, rfl, -⟩ | ⟨_, _, _, rfl⟩ := cases_of_readNumber hread <;> rfl

theorem isUnambiguous_of_mem_words {word : List Char × Value} (hword : word ∈ words) :
    word.2.isUnambiguous = true := by
  simp only [words, List.mem_cons, List.not_mem_nil, or_false] at hword
  rcases hword with rfl | rfl | rfl | rfl | rfl | rfl <;> rfl

/-- What is put together entry by entry declares no key twice, and its values are among those that
were put in. -/
theorem isUnambiguous_ofList {es : Entries} (hvalues : ∀ entry ∈ es, entry.2.isUnambiguous = true) :
    (Value.map (Entries.ofList es)).isUnambiguous = true := by
  unfold Entries.ofList
  refine List.foldlRecOn es _ (motive := fun acc => (Value.map acc).isUnambiguous = true) rfl ?_
  intro acc hacc entry hentry
  obtain ⟨hdiffer, hbefore⟩ := Value.isUnambiguous_map_iff.mp hacc
  refine Value.isUnambiguous_map_iff.mpr ⟨hdiffer.insert _ _, fun other hother => ?_⟩
  rcases Entries.mem_of_mem_insert hother with hold | ⟨hnew, -⟩
  · exact hbefore other hold
  · exact hnew ▸ hvalues entry hentry

theorem readInvariant_isUnambiguous : ReadInvariant (·.isUnambiguous = true) where
  text _ := rfl
  word _ := isUnambiguous_of_mem_words
  number := isUnambiguous_of_readNumber
  list := Value.isUnambiguous_list_iff.mpr
  map hentries := isUnambiguous_ofList fun entry hentry => (hentries entry hentry).2

theorem isUnambiguous_of_read {text : List Char} (hread : read text = .ok v) :
    v.isUnambiguous = true :=
  readInvariant_isUnambiguous.of_read hread

end ApiContract.Json
