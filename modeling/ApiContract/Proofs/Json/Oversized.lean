import ApiContract.Json.Reader
import Mathlib.Data.List.Infix
import Mathlib.Data.List.TakeWhile

/-!
# Numbers that are too long to be read

The JSON reader never goes back: what is left of the text is always an end of what was left before.
So where it refuses a well-formed text, which it does only for a whole number that is too long, the
digits of that number stand in the text one after another.
-/

namespace ApiContract.Json

variable {α β : Type} {c next : Cursor} {text part : List Char}

/-- A run of more decimal digits than a whole number may have. -/
def HasLongNumeral (text : List Char) : Prop :=
  ∃ digits, digits <:+: text ∧ (∀ d ∈ digits, d.isDigit = true) ∧ Text.digitLimit < digits.length

theorem HasLongNumeral.of_infix (hlong : HasLongNumeral part) (hpart : part <:+: text) :
    HasLongNumeral text := by
  obtain ⟨digits, hdigits, hall, hlength⟩ := hlong
  exact ⟨digits, hdigits.trans hpart, hall, hlength⟩

/-! ## Going forward -/

theorem Cursor.rest_skip_suffix (c : Cursor) (isSkipped : Char → Bool) :
    (c.skip isSkipped).rest <:+ c.rest :=
  List.dropWhile_suffix isSkipped

theorem Cursor.rest_skipBlanks_suffix (c : Cursor) : c.skipBlanks.rest <:+ c.rest :=
  c.rest_skip_suffix isBlank

theorem Cursor.rest_advance_suffix (c : Cursor) (n : Nat) : (c.advance n).rest <:+ c.rest :=
  List.drop_suffix n c.rest

/-- What comes of reading at a cursor: something and an end of what was left, a flaw, or a number
that is too long and stands in what was left. -/
inductive Forward (c : Cursor) : Except Fault (Reading α) → Prop
  | ok (a : α) {rest : Cursor} (hrest : rest.rest <:+ c.rest) : Forward c (.ok (a, rest))
  | flaw (flaw : Flaw) (position : Nat) : Forward c (fail flaw position)
  | oversized (hlong : HasLongNumeral c.rest) : Forward c (.error .oversizedNumber)

theorem Forward.from_suffix {x : Except Fault (Reading α)} (hx : Forward next x)
    (hnext : next.rest <:+ c.rest) : Forward c x := by
  cases hx with
  | ok a hrest => exact .ok a (hrest.trans hnext)
  | flaw flaw position => exact .flaw flaw position
  | oversized hlong => exact .oversized (hlong.of_infix hnext.isInfix)

theorem Forward.andThen {x : Except Fault (Reading α)} {f : Reading α → Except Fault (Reading β)}
    (hx : Forward c x) (hf : ∀ a rest, rest.rest <:+ c.rest → Forward c (f (a, rest))) :
    Forward c (x >>= f) := by
  cases hx with
  | ok a hrest => exact hf a _ hrest
  | flaw flaw position => exact .flaw flaw position
  | oversized hlong => exact .oversized hlong

/-! ## The readers go forward -/

theorem forward_readPieces (start : Nat) (mode : StringMode) (cs : List Char) (position : Nat)
    (pieces : List Piece) (offset : Nat) :
    Forward ⟨cs, offset⟩ (readPieces start mode cs position pieces) := by
  -- One character more is one character nearer to the end.
  have hcons : ∀ {c : Char} {rest : List Char} {x : Except Fault (Reading (List Piece))},
      Forward ⟨rest, offset⟩ x → Forward ⟨c :: rest, offset⟩ x :=
    fun hx => hx.from_suffix (List.suffix_cons _ _)
  fun_induction readPieces start mode cs position pieces with
  | case1 => exact .flaw _ _
  | case2 => exact .ok _ (List.suffix_cons _ _)
  | case3 _ _ _ _ _ _ ih => exact hcons ih
  | case4 => exact .flaw _ _
  | case5 _ _ _ _ _ _ _ ih => exact hcons ih
  | case6 => exact .flaw _ _
  | case7 _ _ _ _ _ _ ih => exact hcons ih
  | case8 _ _ _ _ _ _ _ ih => exact hcons ih
  | case9 => exact .flaw _ _
  | case10 => exact .flaw _ _
  | case11 _ _ _ _ _ _ _ _ _ _ ih => exact hcons ih
  | case12 _ _ _ _ _ _ _ _ _ _ ih => exact hcons ih

theorem forward_readString (c : Cursor) : Forward c (readString c) := by
  unfold readString
  apply (forward_readPieces _ _ c.rest _ _ c.position).andThen
  exact fun pieces rest hrest => .ok _ hrest

theorem forward_readNumber (c : Cursor) : Forward c (readNumber c) := by
  unfold readNumber
  split
  rename_i negative unsigned hsign
  have hunsigned : unsigned <:+ c.rest := by
    split at hsign
    · rename_i rest hrest
      obtain ⟨-, rfl⟩ := Prod.mk.inj hsign
      rw [hrest]
      exact List.suffix_cons _ _
    · obtain ⟨-, rfl⟩ := Prod.mk.inj hsign
      exact List.suffix_refl _
  dsimp only
  split
  · exact .flaw _ _
  · split
    · split
      · rename_i hlimit
        -- A number that starts with a zero has one digit, so this one is a run of digits.
        have hdigits : wholeLength unsigned = (unsigned.takeWhile (·.isDigit)).length := by
          unfold wholeLength at hlimit ⊢
          split
          · simp [Text.digitLimit] at hlimit
          · rfl
        apply Forward.oversized
        refine ⟨unsigned.takeWhile (·.isDigit), ?_, fun d => ?_, hdigits ▸ hlimit⟩
        · exact (List.takeWhile_prefix _).isInfix.trans hunsigned.isInfix
        · exact List.mem_takeWhile_imp
      · exact .ok _ (c.rest_advance_suffix _)
    · exact .ok _ (c.rest_advance_suffix _)

/-- The three readers of values, together along their budget. -/
theorem forward_readers (budget : Nat) :
    (∀ c, Forward c (readValue budget c)) ∧
    (∀ c before, Forward c (readItems budget c before)) ∧
    (∀ c before, Forward c (readEntries budget c before)) := by
  induction budget with
  | zero => exact ⟨fun _ => .flaw _ _, fun _ _ => .flaw _ _, fun _ _ => .flaw _ _⟩
  | succ budget ih =>
      obtain ⟨hvalue, hitems, hentries⟩ := ih
      have hinside (c : Cursor) : ((c.advance 1).skipBlanks).rest <:+ c.rest :=
        (c.advance 1).rest_skipBlanks_suffix.trans (c.rest_advance_suffix 1)
      refine ⟨fun c => ?_, fun c before => ?_, fun c before => ?_⟩
      · rw [readValue]
        split
        · apply ((forward_readString _).from_suffix (c.rest_advance_suffix 1)).andThen
          exact fun s rest hrest => .ok _ hrest
        · dsimp only
          split
          · exact .ok _ ((Cursor.rest_advance_suffix _ 1).trans (hinside c))
          · exact (hitems _ _).from_suffix (hinside c)
        · dsimp only
          split
          · exact .ok _ ((Cursor.rest_advance_suffix _ 1).trans (hinside c))
          · exact (hentries _ _).from_suffix (hinside c)
        · split
          · exact .ok _ (c.rest_advance_suffix _)
          · exact forward_readNumber c
      · rw [readItems]
        apply (hvalue c).andThen
        intro v rest hrest
        have hnext := rest.rest_skipBlanks_suffix.trans hrest
        dsimp only
        split
        · exact .ok _ ((Cursor.rest_advance_suffix _ 1).trans hnext)
        · exact (hitems _ _).from_suffix ((hinside _).trans hnext)
        · exact .flaw _ _
      · rw [readEntries]
        split
        · apply ((forward_readString _).from_suffix (c.rest_advance_suffix 1)).andThen
          intro name rest hrest
          have hcolon := rest.rest_skipBlanks_suffix.trans hrest
          dsimp only
          split
          · apply ((hvalue _).from_suffix ((hinside _).trans hcolon)).andThen
            intro v after hafter
            have hnext := after.rest_skipBlanks_suffix.trans hafter
            dsimp only
            split
            · exact .ok _ ((Cursor.rest_advance_suffix _ 1).trans hnext)
            · exact (hentries _ _).from_suffix ((hinside _).trans hnext)
            · exact .flaw _ _
          · exact .flaw _ _
        · exact .flaw _ _

/-- A text that is refused although it is well formed has a run of too many digits. -/
theorem hasLongNumeral_of_read (hread : read text = .error .oversizedNumber) :
    HasLongNumeral text := by
  unfold read at hread
  split at hread
  · cases hread
  · have hvalue := ((forward_readers (text.length + 1)).1 _).from_suffix
      (Cursor.rest_skipBlanks_suffix ⟨text, 0⟩)
    generalize readValue (text.length + 1) (Cursor.skipBlanks ⟨text, 0⟩) = found at hread hvalue
    cases hvalue with
    | ok v hrest =>
        simp only [bind, Except.bind] at hread
        split at hread <;> cases hread
    | flaw => cases hread
    | oversized hlong => exact hlong

end ApiContract.Json
