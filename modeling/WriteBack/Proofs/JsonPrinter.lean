import WriteBack.Json.Printer
import WriteBack.Proofs.JsonGrammar

/-!
# WriteBack.Proofs.JsonPrinter

What the printer writes is JSON text of the value that it writes (`Printable.spells_compact`). A control character
without an escape of its own is written as a code unit and would be read back as one, so it is not printable as a
character, and neither is a literal that is no number.
-/

namespace WriteBack.Json

/-! ## Values that have a text -/

/-- A character that may stand in a string as it is, or has an escape of its own; a code unit of 16 bits. -/
def Piece.Printable : Piece → Prop
  | .char c => 0x20 ≤ c.toNat ∨ c ∈ escapes.map Prod.snd
  | .code n => n < 0x10000

/-- A text of printable elements. -/
def Text.Printable (t : Text) : Prop := ∀ p ∈ t, p.Printable

/-- A value whose literals are numbers and whose strings are printable. -/
inductive Printable : Json → Prop
  | null : Printable .null
  | bool (b : Bool) : Printable (.bool b)
  | number {literal : List Char} : NumberLiteral literal → Printable (.number literal)
  | string {t : Text} : t.Printable → Printable (.string t)
  | array {items : List Json} : (∀ v ∈ items, Printable v) → Printable (.array items)
  | object {members : List (Text × Json)} : (∀ m ∈ members, m.1.Printable) → (∀ m ∈ members, Printable m.2) →
      Printable (.object members)

/-! ## Strings -/

/-- The digits that are printed are among those that are read. -/
theorem digitChar_mem_hexDigits {d : Nat} (h : d < 16) : (Nat.digitChar d, d) ∈ hexDigits := by
  have htable : ∀ d < 16, (Nat.digitChar d, d) ∈ hexDigits := by decide
  exact htable d h

/-- A character in a string is written as itself or by its escape. -/
theorem spells_quoteChar {c : Char} (h : (Piece.char c).Printable) : (Piece.char c).Spells (quoteChar c) := by
  unfold quoteChar
  split
  case h_8 hquote hslash _ _ hnewline hreturn htab =>
    -- of the characters with an escape only the slash is left
    have hcontrol : 0x20 ≤ c.toNat := by
      rcases h with h | h
      · exact h
      · simp only [escapes, List.map_cons, List.map_nil, List.mem_cons, List.not_mem_nil, or_false] at h
        rcases h with rfl | rfl | rfl | rfl | rfl | rfl | rfl | rfl <;> first | decide | contradiction
    rw [if_neg (Nat.not_lt.mpr hcontrol)]
    exact .plain hquote hslash hcontrol
  all_goals exact .escape (by decide)

/-- A code unit is written by its four hexadecimal digits. -/
theorem spells_hexCode {n : Nat} (h : n < 0x10000) : (Piece.code n).Spells ('\\' :: 'u' :: hexCode n) := by
  have hdigit (k : Nat) : (Nat.digitChar (k % 16), k % 16) ∈ hexDigits :=
    digitChar_mem_hexDigits (Nat.mod_lt _ (by decide))
  have hcode : n = 0x1000 * (n / 0x1000 % 16) + 0x100 * (n / 0x100 % 16) + 0x10 * (n / 0x10 % 16) + n % 16 := by
    omega
  have hspells := Piece.Spells.code (hdigit (n / 0x1000)) (hdigit (n / 0x100)) (hdigit (n / 0x10)) (hdigit n)
  rw [← hcode] at hspells
  exact hspells

/-- An element of a string is written as it may be. -/
theorem Piece.Printable.spells {p : Piece} (h : p.Printable) : p.Spells p.write := by
  cases p with
  | char c => exact spells_quoteChar h
  | code n => exact spells_hexCode h

/-- So is a whole string. -/
theorem Text.Printable.spells {t : Text} (h : t.Printable) : t.Spells (t.flatMap Piece.write) := by
  induction t with
  | nil => exact .nil
  | cons p t ih =>
      obtain ⟨hp, hrest⟩ := List.forall_mem_cons.mp h
      exact .cons hp.spells (ih hrest)

/-! ## Values -/

/-- A value is an element without blanks. -/
theorem Spells.element_of_value {v : Json} {cs : List Char} (h : Spells (.value v) cs) :
    Spells (.element v) cs := by
  have hspells := Spells.element (List.forall_mem_nil _) h (List.forall_mem_nil _)
  rwa [List.nil_append, List.append_nil] at hspells

/-- The elements of an array are written with commas between them. -/
theorem spells_compactItems {items : List Json} (hne : items ≠ [])
    (h : ∀ v ∈ items, Spells (.value v) v.compact) : Spells (.items items) (compactItems items) := by
  induction items with
  | nil => exact absurd rfl hne
  | cons v rest ih =>
      obtain ⟨hv, hrest⟩ := List.forall_mem_cons.mp h
      cases rest with
      | nil => exact .item hv.element_of_value
      | cons w rest => exact .items hv.element_of_value (ih (List.cons_ne_nil _ _) hrest)

/-- A member is written as its key, a colon and its value. -/
theorem spells_compactMember {key : Text} {v : Json} (hkey : key.Printable) (hv : Spells (.value v) v.compact) :
    Spells (.member key v) (key.write ++ ':' :: v.compact) := by
  have hspells := Spells.member (List.forall_mem_nil _) hkey.spells (List.forall_mem_nil _) hv.element_of_value
  rw [Text.write]
  simpa using hspells

/-- The members of an object are written with commas between them. -/
theorem spells_compactMembers {members : List (Text × Json)} (hne : members ≠ [])
    (hkeys : ∀ m ∈ members, m.1.Printable) (h : ∀ m ∈ members, Spells (.value m.2) m.2.compact) :
    Spells (.members members) (compactMembers members) := by
  induction members with
  | nil => exact absurd rfl hne
  | cons m rest ih =>
      obtain ⟨key, v⟩ := m
      obtain ⟨hkey, hrestKeys⟩ := List.forall_mem_cons.mp hkeys
      obtain ⟨hv, hrest⟩ := List.forall_mem_cons.mp h
      have hmember := spells_compactMember hkey hv
      cases rest with
      | nil => exact .lastMember hmember
      | cons m rest =>
          have hspells := Spells.members hmember (ih (List.cons_ne_nil _ _) hrestKeys hrest)
          rw [List.append_assoc, List.cons_append] at hspells
          rw [compactMembers, List.append_assoc, List.cons_append]
          exact hspells

/-- **The printer writes JSON text** of its value. -/
theorem Printable.spells_compact {v : Json} (h : Printable v) : Spells (.value v) v.compact := by
  induction h with
  | null => rw [compact]; exact .null
  | bool b =>
      cases b with
      | false => rw [compact]; exact .false
      | true => rw [compact]; exact .true
  | number h => rw [compact]; exact .number h
  | string h => rw [compact, Text.write]; exact .string h.spells
  | @array items _ ih =>
      rw [compact]
      cases items with
      | nil => exact .emptyArray (List.forall_mem_nil _)
      | cons v rest => exact .array (spells_compactItems (List.cons_ne_nil _ _) ih)
  | @object members hkeys _ ih =>
      rw [compact]
      cases members with
      | nil => exact .emptyObject (List.forall_mem_nil _)
      | cons m rest => exact .object (spells_compactMembers (List.cons_ne_nil _ _) hkeys ih)

/-- What is printed is read back. -/
theorem Printable.parse?_compact {v : Json} (h : Printable v) : parse? v.compact = some v :=
  parse?_of_isDocument h.spells_compact.element_of_value

/-! ## Plain values -/

/-- The decimal digits of a number have no zeros in front. -/
theorem wholePart_toDigits (n : Nat) : WholePart (Nat.toDigits 10 n) := by
  have hdigits (n : Nat) : Digits (Nat.toDigits 10 n) :=
    fun _ hc => Nat.isDigit_of_mem_toDigits (by decide) (by decide) hc
  -- a positive number does not start with a zero
  have hpositive (n : Nat) (h : 0 < n) : ∃ d ds, Nat.toDigits 10 n = d :: ds ∧ d ≠ '0' := by
    induction n using Nat.strongRecOn with
    | ind n ih =>
        rw [Nat.toDigits_eq_if (by decide)]
        split
        · next hlt =>
          have htable : ∀ d < 10, 0 < d → Nat.digitChar d ≠ '0' := by decide
          exact ⟨_, [], rfl, htable n hlt h⟩
        · next hge =>
          obtain ⟨d, ds, heq, hne⟩ := ih (n / 10) (by omega) (by omega)
          exact ⟨d, ds ++ [_], by rw [heq]; rfl, hne⟩
  rcases Nat.eq_zero_or_pos n with rfl | h
  · exact .zero
  · obtain ⟨d, ds, heq, hne⟩ := hpositive n h
    have hall := hdigits n
    rw [heq] at hall ⊢
    obtain ⟨hd, hds⟩ := List.forall_mem_cons.mp hall
    exact .digits hd hne hds

theorem ofNat_eq (n : Nat) : ofNat n = .number (Nat.toDigits 10 n) := by
  rw [ofNat, Nat.toString_eq_repr, Nat.toList_repr]

/-- Every natural number has a text. -/
theorem printable_ofNat (n : Nat) : Printable (ofNat n) := by
  rw [ofNat_eq]
  have hliteral := NumberLiteral.parts (.inl rfl) (wholePart_toDigits n) .absent .absent
  simp only [List.nil_append, List.append_nil] at hliteral
  exact .number hliteral

/-- A string without control characters has a text. -/
theorem printable_text_ofString {s : String} (h : ∀ c ∈ s.toList, 0x20 ≤ c.toNat) :
    (Text.ofString s).Printable := by
  intro p hp
  obtain ⟨c, hc, rfl⟩ := List.mem_map.mp hp
  exact .inl (h c hc)

/-- An object has a text if its values have one and no name holds a control character. -/
theorem printable_ofMembers {members : List (String × Json)}
    (hkeys : ∀ name ∈ members.map Prod.fst, ∀ c ∈ name.toList, 0x20 ≤ c.toNat)
    (h : ∀ m ∈ members, Printable m.2) : Printable (ofMembers members) := by
  refine .object (fun m hm => ?_) fun m hm => ?_
  · obtain ⟨⟨key, v⟩, hmem, rfl⟩ := List.mem_map.mp hm
    exact printable_text_ofString (hkeys key (List.mem_map_of_mem hmem))
  · obtain ⟨⟨key, v⟩, hmem, rfl⟩ := List.mem_map.mp hm
    exact h _ hmem

end WriteBack.Json
