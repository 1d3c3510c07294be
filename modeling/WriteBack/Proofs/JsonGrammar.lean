import WriteBack.Json.Reader

/-!
# WriteBack.Proofs.JsonGrammar

The grammar of JSON text, and that the reader reads it. `Spells` says which texts write a value: any blanks
between the tokens, any spelling of a character, members in any order and any number of times. It mentions
neither modes nor stacks.

The reader is followed through a text by induction on its derivation (`Spells.reads`). One thing is in the way:
after a number it cannot know yet that the number is complete. So a phrase leads to a reader that *settles* in
the expected one as soon as a delimiter follows (`Settles`).
-/

namespace WriteBack.Json

/-! ## Tokens -/

/-- Any number of blanks. -/
def Blanks (cs : List Char) : Prop := ∀ c ∈ cs, isBlank c = true

/-- Any number of decimal digits. -/
def Digits (cs : List Char) : Prop := ∀ c ∈ cs, c.isDigit = true

/-- The whole part of a number has no zeros in front. -/
inductive WholePart : List Char → Prop
  | zero : WholePart ['0']
  | digits {d : Char} {ds : List Char} : d.isDigit = true → d ≠ '0' → Digits ds → WholePart (d :: ds)

/-- The fraction of a number, with its point; it may be missing. -/
inductive FractionPart : List Char → Prop
  | absent : FractionPart []
  | digits {ds : List Char} : ds ≠ [] → Digits ds → FractionPart ('.' :: ds)

/-- The exponent of a number, with its mark; it may be missing. -/
inductive ExponentPart : List Char → Prop
  | absent : ExponentPart []
  | digits {e : Char} {sign ds : List Char} : e = 'e' ∨ e = 'E' → sign = [] ∨ sign = ['+'] ∨ sign = ['-'] →
      ds ≠ [] → Digits ds → ExponentPart (e :: (sign ++ ds))

/-- The literal of a number. -/
inductive NumberLiteral : List Char → Prop
  | parts {sign whole fraction exponent : List Char} : sign = [] ∨ sign = ['-'] → WholePart whole →
      FractionPart fraction → ExponentPart exponent →
      NumberLiteral (sign ++ (whole ++ (fraction ++ exponent)))

/-- The characters that may follow a backslash, and what they stand for. -/
def escapes : List (Char × Char) :=
  [('"', '"'), ('\\', '\\'), ('/', '/'), ('b', '\x08'), ('f', '\x0c'), ('n', '\n'), ('r', '\r'), ('t', '\t')]

/-- The hexadecimal digits in both cases, and their values. -/
def hexDigits : List (Char × Nat) :=
  ['0', '1', '2', '3', '4', '5', '6', '7', '8', '9', 'a', 'b', 'c', 'd', 'e', 'f'].zipIdx ++
    ['A', 'B', 'C', 'D', 'E', 'F'].zipIdx 10

/-- How an element of a string may be written. -/
inductive Piece.Spells : Piece → List Char → Prop
  | plain {c : Char} : c ≠ '"' → c ≠ '\\' → 0x20 ≤ c.toNat → Spells (.char c) [c]
  | escape {e c : Char} : (e, c) ∈ escapes → Spells (.char c) ['\\', e]
  | code {c₃ c₂ c₁ c₀ : Char} {d₃ d₂ d₁ d₀ : Nat} : (c₃, d₃) ∈ hexDigits → (c₂, d₂) ∈ hexDigits →
      (c₁, d₁) ∈ hexDigits → (c₀, d₀) ∈ hexDigits →
      Spells (.code (0x1000 * d₃ + 0x100 * d₂ + 0x10 * d₁ + d₀)) ['\\', 'u', c₃, c₂, c₁, c₀]

/-- How a string may be written, without its quotes. -/
inductive Text.Spells : Text → List Char → Prop
  | nil : Spells [] []
  | cons {p : Piece} {t : Text} {cs ds : List Char} : p.Spells cs → Spells t ds → Spells (p :: t) (cs ++ ds)

/-! ## Phrases -/

/-- What a text may be derived as. -/
inductive Phrase where
  | value (v : Json)
  /-- A value with blanks around it. -/
  | element (v : Json)
  /-- Elements with commas between them, at least one. -/
  | items (vs : List Json)
  /-- A key, a colon and an element. -/
  | member (key : Text) (v : Json)
  /-- Members with commas between them, at least one. -/
  | members (ms : List (Text × Json))

/-- How a phrase may be written. -/
inductive Spells : Phrase → List Char → Prop
  | null : Spells (.value .null) ['n', 'u', 'l', 'l']
  | true : Spells (.value (.bool true)) ['t', 'r', 'u', 'e']
  | false : Spells (.value (.bool false)) ['f', 'a', 'l', 's', 'e']
  | number {cs : List Char} : NumberLiteral cs → Spells (.value (.number cs)) cs
  | string {t : Text} {cs : List Char} : t.Spells cs → Spells (.value (.string t)) ('"' :: (cs ++ ['"']))
  | emptyArray {bs : List Char} : Blanks bs → Spells (.value (.array [])) ('[' :: (bs ++ [']']))
  | array {vs : List Json} {cs : List Char} : Spells (.items vs) cs →
      Spells (.value (.array vs)) ('[' :: (cs ++ [']']))
  | emptyObject {bs : List Char} : Blanks bs → Spells (.value (.object [])) ('{' :: (bs ++ ['}']))
  | object {ms : List (Text × Json)} {cs : List Char} : Spells (.members ms) cs →
      Spells (.value (.object ms)) ('{' :: (cs ++ ['}']))
  | element {v : Json} {before cs after : List Char} : Blanks before → Spells (.value v) cs → Blanks after →
      Spells (.element v) (before ++ (cs ++ after))
  | item {v : Json} {cs : List Char} : Spells (.element v) cs → Spells (.items [v]) cs
  | items {v : Json} {vs : List Json} {cs ds : List Char} : Spells (.element v) cs → Spells (.items vs) ds →
      Spells (.items (v :: vs)) (cs ++ ',' :: ds)
  | member {key : Text} {v : Json} {before ks after cs : List Char} : Blanks before → key.Spells ks →
      Blanks after → Spells (.element v) cs →
      Spells (.member key v) (before ++ '"' :: (ks ++ '"' :: (after ++ ':' :: cs)))
  | lastMember {key : Text} {v : Json} {cs : List Char} : Spells (.member key v) cs →
      Spells (.members [(key, v)]) cs
  | members {key : Text} {v : Json} {ms : List (Text × Json)} {cs ds : List Char} :
      Spells (.member key v) cs → Spells (.members ms) ds →
      Spells (.members ((key, v) :: ms)) (cs ++ ',' :: ds)

/-- A document: one value with blanks around it. -/
def IsDocument (v : Json) (text : List Char) : Prop := Spells (.element v) text

/-! ## Characters that the reader takes -/

/-- The reader knows every escape, and takes none of them for a code unit. -/
theorem escaped?_of_mem {e c : Char} (h : (e, c) ∈ escapes) : escaped? e = some c ∧ e ≠ 'u' := by
  have htable : ∀ p ∈ escapes, escaped? p.1 = some p.2 ∧ p.1 ≠ 'u' := by decide
  exact htable (e, c) h

/-- The reader knows every hexadecimal digit. -/
theorem hexDigit?_of_mem {c : Char} {d : Nat} (h : (c, d) ∈ hexDigits) : hexDigit? c = some d := by
  have htable : ∀ p ∈ hexDigits, hexDigit? p.1 = some p.2 := by decide
  exact htable (c, d) h

namespace Reader

variable {r r' : Reader} {stack : List Frame} {cs ds : List Char}

/-- The reader after some characters. -/
def feed (r : Reader) (cs : List Char) : Option Reader := cs.foldlM step r

@[simp] theorem feed_nil (r : Reader) : r.feed [] = some r := rfl

theorem feed_cons (r : Reader) (c : Char) (cs : List Char) : r.feed (c :: cs) = (r.step c).bind (feed · cs) :=
  List.foldlM_cons

/-- Characters are taken in order, so a text is taken part by part. -/
theorem feed_append (r : Reader) (cs ds : List Char) : r.feed (cs ++ ds) = (r.feed cs).bind (feed · ds) :=
  List.foldlM_append

/-- A character that the reader takes leaves it with the rest of the text. -/
theorem feed_cons_of_step {c : Char} (h : r.step c = some r') (cs : List Char) :
    r.feed (c :: cs) = r'.feed cs := by
  rw [feed_cons, h]
  rfl

/-- A part of the text that the reader takes leaves it with the rest. -/
theorem feed_append_of_feed (h : r.feed cs = some r') (ds : List Char) : r.feed (cs ++ ds) = r'.feed ds := by
  rw [feed_append, h]
  rfl

/-- The reader may be between two tokens. -/
def SkipsBlanks (r : Reader) : Prop := ∀ c, isBlank c = true → r.step c = some r

/-- Any number of blanks is skipped where one is. -/
theorem SkipsBlanks.feed (h : r.SkipsBlanks) (hb : Blanks cs) : r.feed cs = some r := by
  induction cs with
  | nil => rfl
  | cons c cs ih =>
      obtain ⟨hc, hrest⟩ := List.forall_mem_cons.mp hb
      rw [feed_cons_of_step (h c hc), ih hrest]

theorem skipsBlanks_value : SkipsBlanks ⟨.value, stack⟩ := fun _ hc => if_pos hc

theorem skipsBlanks_arrayStart : SkipsBlanks ⟨.arrayStart, stack⟩ := fun _ hc => if_pos hc

theorem skipsBlanks_objectStart : SkipsBlanks ⟨.objectStart, stack⟩ := fun _ hc => if_pos hc

theorem skipsBlanks_member {ms : List (Text × Json)} : SkipsBlanks ⟨.member ms, stack⟩ := fun _ hc => if_pos hc

theorem skipsBlanks_colon {ms : List (Text × Json)} {key : Text} : SkipsBlanks ⟨.colon ms key, stack⟩ :=
  fun _ hc => if_pos hc

/-! ## Complete values -/

/-- What follows a complete value is a blank, a comma or the end of an array or object. -/
theorem step_complete (v : Json) (stack : List Frame) (c : Char) :
    (complete v stack).step c = (complete v stack).follow? c := by
  cases stack with
  | nil => rfl
  | cons frame stack => cases frame <;> rfl

/-- Blanks may follow a complete value. -/
theorem skipsBlanks_complete (v : Json) (stack : List Frame) : (complete v stack).SkipsBlanks := fun c hc => by
  rw [step_complete, follow?, if_pos hc]

/-- A reader that behaves as `r'` does once a delimiter comes. -/
inductive Settles : Reader → Reader → Prop
  | refl {r : Reader} : Settles r r
  | number {part : NumberPart} {literal : List Char} {stack : List Frame} : part.mayEnd = true →
      Settles ⟨.number part literal, stack⟩ (complete (.number literal.reverse) stack)

/-- The characters that no number goes on with. -/
def Delimits (c : Char) : Prop := ∀ part : NumberPart, part.next? c = none

/-- A comma ends a number. -/
theorem delimits_comma : Delimits ',' := fun part => by cases part <;> rfl

/-- So does the end of an array. -/
theorem delimits_bracket : Delimits ']' := fun part => by cases part <;> rfl

/-- So does the end of an object. -/
theorem delimits_brace : Delimits '}' := fun part => by cases part <;> rfl

/-- So does a blank. -/
theorem delimits_blank {c : Char} (hc : isBlank c = true) : Delimits c := fun part => by
  simp only [isBlank, Bool.or_eq_true, beq_iff_eq] at hc
  rcases hc with ((rfl | rfl) | rfl) | rfl <;> cases part <;> rfl

/-- A delimiter does to a settling reader what it does to the one that it settles in. -/
theorem Settles.step {v : Json} {c : Char} (h : r.Settles (complete v stack)) (hc : Delimits c) :
    r.step c = (complete v stack).step c := by
  generalize hr' : complete v stack = r' at h
  cases h with
  | refl => rfl
  | @number part literal stack' hend =>
      rw [step_complete, Reader.step]
      dsimp only
      rw [hc part]
      exact if_pos hend

/-- Blanks settle a value, or leave it as it is. -/
theorem Settles.feed_blanks {v : Json} (h : r.Settles (complete v stack)) (hb : Blanks cs) :
    ∃ r', r.feed cs = some r' ∧ r'.Settles (complete v stack) := by
  cases cs with
  | nil => exact ⟨r, rfl, h⟩
  | cons c cs =>
      obtain ⟨hc, hrest⟩ := List.forall_mem_cons.mp hb
      refine ⟨complete v stack, ?_, .refl⟩
      have hskips := skipsBlanks_complete v stack
      rw [feed_cons, h.step (delimits_blank hc), hskips c hc]
      exact hskips.feed hrest

end Reader

/-! ## Numbers -/

namespace NumberPart

variable {part part' : NumberPart} {cs ds : List Char}

/-- The part that the reader is in after some more characters of a number. -/
def scan (part : NumberPart) (cs : List Char) : Option NumberPart := cs.foldlM next? part

/-- A character that goes on with a number leaves the rest to the part after it. -/
theorem scan_cons_of_next {c : Char} (h : part.next? c = some part') (cs : List Char) :
    part.scan (c :: cs) = part'.scan cs := by
  rw [scan, List.foldlM_cons, h]
  rfl

/-- A piece of a number leaves the rest to the part after it. -/
theorem scan_append_of_scan (h : part.scan cs = some part') (ds : List Char) :
    part.scan (cs ++ ds) = part'.scan ds := by
  rw [scan, List.foldlM_append, ← scan, h]
  rfl

/-- The parts of which digits make more. -/
theorem scan_digits (hpart : part = .integer ∨ part = .fraction ∨ part = .exponentDigits) (h : Digits ds) :
    part.scan ds = some part := by
  induction ds with
  | nil => rfl
  | cons d ds ih =>
      obtain ⟨hd, hrest⟩ := List.forall_mem_cons.mp h
      have hnext : part.next? d = some part := by
        rcases hpart with rfl | rfl | rfl <;> simp [next?, hd]
      rw [scan_cons_of_next hnext, ih hrest]

/-- The first of some digits leads to a part of which the others make more. -/
theorem scan_first_digits (hfirst : ∀ d : Char, d.isDigit = true → part.next? d = some part')
    (hpart : part' = .integer ∨ part' = .fraction ∨ part' = .exponentDigits) (hne : ds ≠ []) (h : Digits ds) :
    part.scan ds = some part' := by
  obtain ⟨d, ds, rfl⟩ := List.exists_cons_of_ne_nil hne
  obtain ⟨hd, hrest⟩ := List.forall_mem_cons.mp h
  rw [scan_cons_of_next (hfirst d hd), scan_digits hpart hrest]

/-- A whole part is read, as a single zero or as digits. -/
theorem scan_whole (h : WholePart cs) : ∃ part, scan .minus cs = some part ∧ (part = .zero ∨ part = .integer) := by
  cases h with
  | zero => exact ⟨.zero, rfl, .inl rfl⟩
  | @digits d ds hd hne hds =>
      have hfirst : NumberPart.minus.next? d = some .integer := by simp [next?, hd, hne]
      exact ⟨.integer, by rw [scan_cons_of_next hfirst, scan_digits (.inl rfl) hds], .inr rfl⟩

/-- A fraction is read behind a whole part. -/
theorem scan_fraction (hpart : part = .zero ∨ part = .integer) (h : FractionPart cs) :
    ∃ part', part.scan cs = some part' ∧ (part' = .zero ∨ part' = .integer ∨ part' = .fraction) := by
  cases h with
  | absent => exact ⟨part, rfl, hpart.imp_right .inl⟩
  | @digits ds hne hds =>
      have hpoint : part.next? '.' = some .point := by rcases hpart with rfl | rfl <;> rfl
      have hdigits : scan .point ds = some .fraction :=
        scan_first_digits (fun d hd => by simp [next?, hd]) (.inr (.inl rfl)) hne hds
      exact ⟨.fraction, by rw [scan_cons_of_next hpoint, hdigits], .inr (.inr rfl)⟩

/-- An exponent is read behind either, and the number may end there. -/
theorem scan_exponent (hpart : part = .zero ∨ part = .integer ∨ part = .fraction) (h : ExponentPart cs) :
    ∃ part', part.scan cs = some part' ∧ part'.mayEnd = true := by
  cases h with
  | absent => exact ⟨part, rfl, by rcases hpart with rfl | rfl | rfl <;> rfl⟩
  | @digits e sign ds he hsign hne hds =>
      have hmark : part.next? e = some .exponent := by
        rcases he with rfl | rfl <;> rcases hpart with rfl | rfl | rfl <;> rfl
      have hdigits (sign : NumberPart) (h : sign = .exponent ∨ sign = .exponentSign) :
          sign.scan ds = some .exponentDigits :=
        scan_first_digits (fun d hd => by rcases h with rfl | rfl <;> simp [next?, hd]) (.inr (.inr rfl)) hne hds
      refine ⟨.exponentDigits, ?_, rfl⟩
      rw [scan_cons_of_next hmark]
      rcases hsign with rfl | rfl | rfl
      · exact hdigits .exponent (.inl rfl)
      · rw [List.singleton_append, scan_cons_of_next rfl, hdigits .exponentSign (.inr rfl)]
      · rw [List.singleton_append, scan_cons_of_next rfl, hdigits .exponentSign (.inr rfl)]

/-- Behind its sign, a number is read to its end. -/
theorem scan_unsigned {whole fraction exponent : List Char} (hwhole : WholePart whole)
    (hfraction : FractionPart fraction) (hexponent : ExponentPart exponent) :
    ∃ part, scan .minus (whole ++ (fraction ++ exponent)) = some part ∧ part.mayEnd = true := by
  obtain ⟨part₁, h₁, hpart₁⟩ := scan_whole hwhole
  obtain ⟨part₂, h₂, hpart₂⟩ := scan_fraction hpart₁ hfraction
  obtain ⟨part, h, hend⟩ := scan_exponent hpart₂ hexponent
  exact ⟨part, by rw [scan_append_of_scan h₁, scan_append_of_scan h₂, h], hend⟩

end NumberPart

namespace Reader

variable {r r' : Reader} {stack : List Frame} {cs ds : List Char}

/-- The reader goes through the parts of a number and gathers its literal, last character first. -/
theorem feed_number {part part' : NumberPart} (h : part.scan cs = some part') (literal : List Char) :
    feed ⟨.number part literal, stack⟩ cs = some ⟨.number part' (cs.reverse ++ literal), stack⟩ := by
  induction cs generalizing part literal with
  | nil =>
      cases h
      rfl
  | cons c cs ih =>
      cases hnext : part.next? c with
      | none =>
          rw [NumberPart.scan, List.foldlM_cons, hnext] at h
          cases h
      | some part₁ =>
          rw [NumberPart.scan_cons_of_next hnext] at h
          have hstep : step ⟨.number part literal, stack⟩ c = some ⟨.number part₁ (c :: literal), stack⟩ := by
            rw [step]
            dsimp only
            rw [hnext]
          rw [feed_cons_of_step hstep, ih h, List.reverse_cons, List.append_assoc, List.singleton_append]

/-- A digit is no blank. -/
theorem not_blank_of_isDigit {c : Char} (hd : c.isDigit = true) : isBlank c = false := by
  rw [← Bool.not_eq_true]
  intro hb
  simp only [isBlank, Bool.or_eq_true, beq_iff_eq] at hb
  rcases hb with ((rfl | rfl) | rfl) | rfl <;> cases hd

/-- A digit starts a number, which a zero is on its own. -/
theorem start?_of_isDigit {c : Char} (hd : c.isDigit = true) :
    start? c stack = some ⟨.number (if c == '0' then .zero else .integer) [c], stack⟩ := by
  by_cases hzero : c = '0'
  · rw [hzero]
    rfl
  · unfold start?
    split
    case h_9 => simp [hd, hzero]
    all_goals first | exact absurd rfl hzero | cases hd

/-- A number without a sign starts as it goes on behind one. -/
theorem step_value_of_minus {c : Char} {part : NumberPart} (h : NumberPart.minus.next? c = some part) :
    step ⟨.value, stack⟩ c = some ⟨.number part [c], stack⟩ := by
  have hfirst : c.isDigit = true ∧ part = if c == '0' then .zero else .integer := by
    by_cases hzero : c = '0'
    · subst hzero
      cases h
      exact ⟨rfl, rfl⟩
    · simp only [NumberPart.next?, beq_iff_eq, hzero, if_false] at h
      split at h
      · next hd =>
        cases h
        exact ⟨hd, by simp [hzero]⟩
      · cases h
  obtain ⟨hd, rfl⟩ := hfirst
  rw [step]
  dsimp only
  rw [not_blank_of_isDigit hd, if_neg Bool.false_ne_true, start?_of_isDigit hd]

/-- **A number** is read, and it may be complete. -/
theorem feed_literal (h : NumberLiteral cs) (stack : List Frame) :
    ∃ part, feed ⟨.value, stack⟩ cs = some ⟨.number part cs.reverse, stack⟩ ∧ part.mayEnd = true := by
  obtain @⟨sign, whole, fraction, exponent, hsign, hwhole, hfraction, hexponent⟩ := h
  obtain ⟨part, hscan, hend⟩ := NumberPart.scan_unsigned hwhole hfraction hexponent
  refine ⟨part, ?_, hend⟩
  generalize whole ++ (fraction ++ exponent) = unsigned at hscan
  rcases hsign with rfl | rfl
  · cases unsigned with
    | nil =>
        cases hscan
        cases hend
    | cons c cs =>
        cases hnext : NumberPart.minus.next? c with
        | none =>
            rw [NumberPart.scan, List.foldlM_cons, hnext] at hscan
            cases hscan
        | some part₁ =>
            rw [NumberPart.scan_cons_of_next hnext] at hscan
            rw [List.nil_append, feed_cons_of_step (step_value_of_minus hnext), feed_number hscan, List.reverse_cons]
  · rw [List.singleton_append, feed_cons_of_step rfl, feed_number hscan, List.reverse_cons]

/-! ## Strings -/

/-- A digit of a code unit, with more to come. -/
theorem step_hex {c : Char} {d : Nat} (h : (c, d) ∈ hexDigits) (target : Target) (units : Text)
    (left code : Nat) :
    step ⟨.hex target units (left + 2) code, stack⟩ c =
      some ⟨.hex target units (left + 1) (16 * code + d), stack⟩ := by
  simp [step, hexDigit?_of_mem h]

/-- The last digit of a code unit completes it. -/
theorem step_hex_last {c : Char} {d : Nat} (h : (c, d) ∈ hexDigits) (target : Target) (units : Text)
    (code : Nat) :
    step ⟨.hex target units 1 code, stack⟩ c = some ⟨.text target (.code (16 * code + d) :: units), stack⟩ := by
  simp [step, hexDigit?_of_mem h]

/-- However an element of a string is spelled, the reader adds it to the string. -/
theorem feed_piece {p : Piece} (h : p.Spells cs) (target : Target) (units : Text) :
    feed ⟨.text target units, stack⟩ cs = some ⟨.text target (p :: units), stack⟩ := by
  cases h with
  | plain hquote hslash hcontrol =>
      refine feed_cons_of_step ?_ []
      simp [step, hquote, hslash, Nat.not_lt.mpr hcontrol]
  | escape hmem =>
      obtain ⟨hescaped, hu⟩ := escaped?_of_mem hmem
      rw [feed_cons_of_step rfl]
      refine feed_cons_of_step ?_ []
      simp [step, hescaped, hu]
  | @code c₃ c₂ c₁ c₀ d₃ d₂ d₁ d₀ h₃ h₂ h₁ h₀ =>
      have hcode : 0x1000 * d₃ + 0x100 * d₂ + 0x10 * d₁ + d₀ =
          16 * (16 * (16 * (16 * 0 + d₃) + d₂) + d₁) + d₀ := by omega
      rw [hcode, feed_cons_of_step rfl, feed_cons_of_step rfl, feed_cons_of_step (step_hex h₃ target units 2 0),
        feed_cons_of_step (step_hex h₂ target units 1 _), feed_cons_of_step (step_hex h₁ target units 0 _),
        feed_cons_of_step (step_hex_last h₀ target units _), feed_nil]

/-- The elements of a string are added in order. -/
theorem feed_units {t : Text} (h : t.Spells cs) (target : Target) (units : Text) :
    feed ⟨.text target units, stack⟩ cs = some ⟨.text target (t.reverse ++ units), stack⟩ := by
  induction h generalizing units with
  | nil => rfl
  | @cons p t cs ds hp _ ih =>
      rw [feed_append_of_feed (feed_piece hp target units), ih, List.reverse_cons, List.append_assoc,
        List.singleton_append]

/-- **A string** is read up to its closing quote. -/
theorem feed_text {t : Text} (h : t.Spells cs) (target : Target) (ds : List Char) :
    feed ⟨.text target [], stack⟩ (cs ++ '"' :: ds) = (completeText target t.reverse stack).feed ds := by
  rw [feed_append_of_feed (feed_units h target []), List.append_nil]
  exact feed_cons_of_step rfl ds

/-! ## Phrases -/

/-- The characters lead the reader to `r'`, once a delimiter follows. -/
def Gets (r : Reader) (cs : List Char) (r' : Reader) : Prop := ∃ r₁, r.feed cs = some r₁ ∧ r₁.Settles r'

/-- Characters lead to the reader that takes them. -/
theorem gets_of_feed (h : r.feed cs = some r') : r.Gets cs r' := ⟨r', h, .refl⟩

/-- Characters that are taken may stand in front. -/
theorem Gets.of_feed {r₁ : Reader} (h : r₁.Gets ds r') (hcs : r.feed cs = some r₁) : r.Gets (cs ++ ds) r' := by
  obtain ⟨r₂, hds, hsettles⟩ := h
  exact ⟨r₂, by rw [feed_append_of_feed hcs, hds], hsettles⟩

/-- A character that is taken may stand in front. -/
theorem Gets.of_step {c : Char} {r₁ : Reader} (h : r₁.Gets cs r') (hc : r.step c = some r₁) :
    r.Gets (c :: cs) r' := by
  obtain ⟨r₂, hcs, hsettles⟩ := h
  exact ⟨r₂, by rw [feed_cons_of_step hc, hcs], hsettles⟩

/-- A delimiter takes a complete value further. -/
theorem Gets.feed_delimiter {v : Json} {c : Char} {r₁ : Reader} (h : r.Gets cs (complete v stack))
    (hc : Delimits c) (hstep : (complete v stack).step c = some r₁) (ds : List Char) :
    r.feed (cs ++ c :: ds) = r₁.feed ds := by
  obtain ⟨r₂, hcs, hsettles⟩ := h
  rw [feed_append_of_feed hcs]
  exact feed_cons_of_step ((hsettles.step hc).trans hstep) ds

/-- Two readers take the same characters to the same end if they are in the same place after some blanks. -/
theorem feed_eq_of_opens {r₁ r₂ : Reader} {before : List Char} {c : Char} (h₁ : r₁.SkipsBlanks)
    (h₂ : r₂.SkipsBlanks) (hb : Blanks before) (hc : r₁.step c = r₂.step c) (rest : List Char) :
    r₁.feed (before ++ c :: rest) = r₂.feed (before ++ c :: rest) := by
  rw [feed_append_of_feed (h₁.feed hb), feed_append_of_feed (h₂.feed hb), feed_cons, feed_cons, hc]

end Reader

/-- Text that starts, after some blanks, with a character of the given kind. -/
def Opens (p : Char → Prop) (cs : List Char) : Prop :=
  ∃ before c rest, cs = before ++ c :: rest ∧ Blanks before ∧ p c

/-- What a text starts with does not depend on what follows it. -/
theorem Opens.append {p : Char → Prop} {cs : List Char} (h : Opens p cs) (ds : List Char) :
    Opens p (cs ++ ds) := by
  obtain ⟨before, c, rest, rfl, hb, hc⟩ := h
  exact ⟨before, c, rest ++ ds, by simp, hb, hc⟩

/-- What a text starts with does not depend on the blanks in front of it. -/
theorem Opens.after_blanks {p : Char → Prop} {before cs : List Char} (h : Opens p cs) (hb : Blanks before) :
    Opens p (before ++ cs) := by
  obtain ⟨more, c, rest, rfl, hmore, hc⟩ := h
  exact ⟨before ++ more, c, rest, by simp, List.forall_mem_append.mpr ⟨hb, hmore⟩, hc⟩

theorem opens_cons {p : Char → Prop} {c : Char} (hc : p c) (rest : List Char) : Opens p (c :: rest) :=
  ⟨[], c, rest, rfl, List.forall_mem_nil _, hc⟩

/-- A character that a value may start with. -/
def StartsValue (c : Char) : Prop := isBlank c = false ∧ c ≠ ']'

/-- A number starts as a value does. -/
theorem NumberLiteral.opens {cs : List Char} (h : NumberLiteral cs) : Opens StartsValue cs := by
  have hdigit {d : Char} (hd : d.isDigit = true) : StartsValue d :=
    ⟨Reader.not_blank_of_isDigit hd, fun h => by rw [h] at hd; cases hd⟩
  obtain @⟨sign, whole, fraction, exponent, hsign, hwhole, _, _⟩ := h
  rcases hsign with rfl | rfl
  · cases hwhole with
    | zero => exact opens_cons (hdigit rfl) _
    | digits hd _ _ => exact opens_cons (hdigit hd) _
  · exact opens_cons ⟨by decide, by decide⟩ _

/-- What a phrase starts with. -/
def Phrase.StartsWith : Phrase → Char → Prop
  | .value _ | .element _ | .items _ => StartsValue
  | .member .. | .members _ => (· = '"')

/-- A text of a phrase starts as the phrase does. -/
theorem Spells.opens {phrase : Phrase} {cs : List Char} (h : Spells phrase cs) :
    Opens phrase.StartsWith cs := by
  induction h with
  | null | true | false | string | emptyArray | array | emptyObject | object =>
      exact opens_cons ⟨by decide, by decide⟩ _
  | number h => exact h.opens
  | element hbefore _ _ ih => exact (ih.append _).after_blanks hbefore
  | item _ ih => exact ih
  | items _ _ ih => exact ih.append _
  | member hbefore _ _ _ _ => exact (opens_cons (p := (· = '"')) rfl _).after_blanks hbefore
  | lastMember _ ih => exact ih
  | members _ _ ih => exact ih.append _

namespace Reader

variable {stack : List Frame} {cs ds : List Char}

/-- The elements of an array start as a value does. -/
theorem feed_arrayStart (h : Opens StartsValue cs) :
    feed ⟨.arrayStart, stack⟩ cs = feed ⟨.value, .array [] :: stack⟩ cs := by
  obtain ⟨before, c, rest, rfl, hb, hblank, hbracket⟩ := h
  refine feed_eq_of_opens skipsBlanks_arrayStart skipsBlanks_value hb ?_ rest
  simp [step, hblank, hbracket]

/-- The members of an object start as any other member does. -/
theorem feed_objectStart (h : Opens (· = '"') cs) :
    feed ⟨.objectStart, stack⟩ cs = feed ⟨.member [], stack⟩ cs := by
  obtain ⟨before, c, rest, rfl, hb, rfl⟩ := h
  exact feed_eq_of_opens skipsBlanks_objectStart skipsBlanks_member hb rfl rest

end Reader

/-- What a reader makes of a phrase, wherever it comes. -/
def Phrase.Reads : Phrase → List Char → Prop
  | .value v, cs | .element v, cs => ∀ stack, Reader.Gets ⟨.value, stack⟩ cs (.complete v stack)
  | .items vs, cs => ∀ items stack, ∃ v earlier, v :: earlier = vs.reverse ++ items ∧
      Reader.Gets ⟨.value, .array items :: stack⟩ cs (.complete v (.array earlier :: stack))
  | .member key v, cs => ∀ members stack,
      Reader.Gets ⟨.member members, stack⟩ cs (.complete v (.object members key :: stack))
  | .members ms, cs => ∀ members stack, ∃ key v earlier, (key, v) :: earlier = ms.reverse ++ members ∧
      Reader.Gets ⟨.member members, stack⟩ cs (.complete v (.object earlier key :: stack))

open Reader in
/-- **The reader follows the grammar**: it takes every text of a phrase, and makes of it what it spells. -/
theorem Spells.reads {phrase : Phrase} {cs : List Char} (h : Spells phrase cs) : phrase.Reads cs := by
  induction h with
  | null => exact fun stack => gets_of_feed rfl
  | true => exact fun stack => gets_of_feed rfl
  | false => exact fun stack => gets_of_feed rfl
  | @number cs h =>
      intro stack
      obtain ⟨part, hfeed, hend⟩ := feed_literal h stack
      have hsettles : Settles ⟨.number part cs.reverse, stack⟩ (complete (.number cs.reverse.reverse) stack) :=
        .number hend
      rw [List.reverse_reverse] at hsettles
      exact ⟨_, hfeed, hsettles⟩
  | @string t cs h =>
      intro stack
      refine Gets.of_step (gets_of_feed ?_) rfl
      rw [feed_text h .value [], completeText, List.reverse_reverse, feed_nil]
  | @emptyArray bs hb =>
      intro stack
      refine Gets.of_step (gets_of_feed ?_) rfl
      rw [feed_append_of_feed (skipsBlanks_arrayStart.feed hb)]
      exact feed_cons_of_step rfl []
  | @array vs cs hitems ih =>
      intro stack
      refine Gets.of_step (gets_of_feed ?_) rfl
      obtain ⟨v, earlier, hvs, hgets⟩ := ih [] stack
      rw [feed_arrayStart (hitems.opens.append _)]
      refine (hgets.feed_delimiter delimits_bracket rfl []).trans ?_
      rw [feed_nil, hvs, List.append_nil, List.reverse_reverse]
      rfl
  | @emptyObject bs hb =>
      intro stack
      refine Gets.of_step (gets_of_feed ?_) rfl
      rw [feed_append_of_feed (skipsBlanks_objectStart.feed hb)]
      exact feed_cons_of_step rfl []
  | @object ms cs hmembers ih =>
      intro stack
      refine Gets.of_step (gets_of_feed ?_) rfl
      obtain ⟨key, v, earlier, hms, hgets⟩ := ih [] stack
      rw [feed_objectStart (hmembers.opens.append _)]
      refine (hgets.feed_delimiter delimits_brace rfl []).trans ?_
      rw [feed_nil, hms, List.append_nil, List.reverse_reverse]
      rfl
  | @element v before cs after hbefore _ hafter ih =>
      intro stack
      obtain ⟨r, hcs, hsettles⟩ := ih stack
      obtain ⟨r', hafter, hsettles'⟩ := hsettles.feed_blanks hafter
      refine Gets.of_feed ⟨r', ?_, hsettles'⟩ (skipsBlanks_value.feed hbefore)
      rw [feed_append_of_feed hcs, hafter]
  | @item v cs _ ih => exact fun items stack => ⟨v, items, rfl, ih (.array items :: stack)⟩
  | @items v vs cs ds _ _ ihFirst ihRest =>
      intro items stack
      obtain ⟨last, earlier, hvs, r, hrest, hsettles⟩ := ihRest (v :: items) stack
      refine ⟨last, earlier, by simpa using hvs, r, ?_, hsettles⟩
      exact ((ihFirst (.array items :: stack)).feed_delimiter delimits_comma rfl ds).trans hrest
  | @member key v before ks after cs hbefore hkey hafter _ ih =>
      intro members stack
      obtain ⟨r, hcs, hsettles⟩ := ih (.object members key :: stack)
      refine Gets.of_feed (Gets.of_step ⟨r, ?_, hsettles⟩ rfl) (skipsBlanks_member.feed hbefore)
      rw [feed_text hkey, completeText, List.reverse_reverse, feed_append_of_feed (skipsBlanks_colon.feed hafter),
        feed_cons_of_step rfl, hcs]
  | @lastMember key v cs _ ih => exact fun members stack => ⟨key, v, members, rfl, ih members stack⟩
  | @members key v ms cs ds _ _ ihFirst ihRest =>
      intro members stack
      obtain ⟨lastKey, last, earlier, hms, r, hrest, hsettles⟩ := ihRest ((key, v) :: members) stack
      refine ⟨lastKey, last, earlier, by simpa using hms, r, ?_, hsettles⟩
      exact ((ihFirst members stack).feed_delimiter delimits_comma rfl ds).trans hrest

/-- **Documents are read**: every text of a value is read as this value. -/
theorem parse?_of_isDocument {v : Json} {text : List Char} (h : IsDocument v text) : parse? text = some v := by
  obtain ⟨r, hfeed, hsettles⟩ := h.reads []
  rw [parse?]
  change (Reader.feed ⟨.value, []⟩ text).bind Reader.finish? = some v
  rw [hfeed, Option.bind_some]
  generalize hr' : Reader.complete v [] = r' at hsettles
  cases hsettles with
  | refl =>
      rw [← hr']
      rfl
  | @number part literal stack hend =>
      cases stack with
      | nil =>
          cases hr'
          exact if_pos hend
      | cons frame stack => cases frame <;> cases hr'

end WriteBack.Json
