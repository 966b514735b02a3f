import Klartext.Tree.Outline

set_option autoImplicit false

/-! # The texts of literals in printed trees

Quoted text determines what it quotes: what stands between the marks can be read character by
character, since an escape shows by its second character how long it is. Quoted text and the texts of
numbers stand on one line. -/

namespace Klartext

namespace Quoted

/-! ## Hexadecimal digits -/

/-- The value of a hexadecimal digit in lower case. -/
def digitValue (c : Char) : Nat := if c.isDigit then c.toNat - 48 else c.toNat - 87

/-- The number that hexadecimal digits denote. -/
def hexValue (t : Text) : Nat := t.foldl (fun n c => 16 * n + digitValue c) 0

theorem digitValue_digitChar {n : Nat} (h : n < 16) : digitValue n.digitChar = n := by
  have hall : ∀ n < 16, digitValue (Nat.digitChar n) = n := by decide
  exact hall n h

theorem hexValue_append_singleton (t : Text) (c : Char) :
    hexValue (t ++ [c]) = 16 * hexValue t + digitValue c := by
  rw [hexValue, List.foldl_append]
  rfl

theorem hexValue_toDigits (n : Nat) : hexValue (Nat.toDigits 16 n) = n := by
  induction n using Nat.strongRecOn with
  | _ n ih =>
      rw [Nat.toDigits_eq_if (by decide)]
      split
      · rename_i hlt
        exact (congrArg (16 * 0 + ·) (digitValue_digitChar hlt)).trans (Nat.zero_add n)
      · rw [hexValue_append_singleton, ih (n / 16) (by omega),
          digitValue_digitChar (Nat.mod_lt n (by decide)), Nat.div_add_mod]

theorem hexValue_hex (width n : Nat) : hexValue (hex width n) = n := by
  have hzeros (count : Nat) (t : Text) :
      hexValue (List.replicate count '0' ++ t) = hexValue t := by
    induction count with
    | zero => rfl
    | succ count ih => exact ih
  rw [hex, hzeros, hexValue_toDigits]

theorem length_hex {width n : Nat} (hwidth : 0 < width) (h : n < Nat.pow 16 width) :
    (hex width n).length = width := by
  have hdigits := (Nat.length_toDigits_le_iff (by decide) hwidth).2 h
  simp only [hex, List.length_append, List.length_replicate]
  omega

theorem not_mem_hex (width n : Nat) : '\n' ∉ hex width n := by
  have hdigits (n : Nat) : '\n' ∉ Nat.toDigits 16 n := by
    induction n using Nat.strongRecOn with
    | _ n ih =>
        have hdigit (k : Nat) : '\n' ≠ k.digitChar := (Nat.digitChar_ne '\n' (by decide)).symm
        rw [Nat.toDigits_eq_if (by decide)]
        split
        · simp [hdigit]
        · simpa [hdigit] using ih (n / 16) (by omega)
  simp [hex, hdigits]

/-! ## Escapes -/

/-- The first character of the text between two marks, and the text behind it. -/
def firstChar? : Text → Option (Char × Text)
  | '\\' :: 'n' :: t => some ('\n', t)
  | '\\' :: 'r' :: t => some ('\r', t)
  | '\\' :: 't' :: t => some ('\t', t)
  | '\\' :: 'x' :: t => some (Char.ofNat (hexValue (t.take 2)), t.drop 2)
  | '\\' :: 'u' :: t => some (Char.ofNat (hexValue (t.take 4)), t.drop 4)
  | '\\' :: 'U' :: t => some (Char.ofNat (hexValue (t.take 8)), t.drop 8)
  | '\\' :: c :: t => some (c, t)
  | c :: t => some (c, t)
  | [] => none

theorem ofNat_hexValue_take (width : Nat) {c : Char} (hwidth : 0 < width)
    (h : c.toNat < Nat.pow 16 width) (t : Text) :
    (Char.ofNat (hexValue ((hex width c.toNat ++ t).take width)),
      (hex width c.toNat ++ t).drop width) = (c, t) := by
  have hlength := length_hex hwidth h
  rw [List.take_left' hlength, List.drop_left' hlength, hexValue_hex, Char.ofNat_toNat]

/-- A mark that text is quoted with. -/
def IsMark (c : Char) : Prop := c = '\'' ∨ c = '\"'

theorem isMark_markFor (t : Text) : IsMark (markFor t) := by
  rw [markFor]
  split
  · exact .inr rfl
  · exact .inl rfl

theorem firstChar?_plain {c : Char} (hc : c ≠ '\\') (t : Text) :
    firstChar? (c :: t) = some (c, t) := by
  rw [firstChar?]
  all_goals simp [hc]

/-- What a character is written as is read as the character, whatever follows it. -/
theorem firstChar?_escape {mark : Char} (hmark : IsMark mark) (c : Char) (t : Text) :
    firstChar? (escape mark c ++ t) = some (c, t) := by
  -- the cases of `escape`: with a backslash, by a letter, as it is, and by two, four or eight digits
  rw [escape]
  split
  · rename_i hspecial
    rw [Bool.or_eq_true, beq_iff_eq, beq_iff_eq] at hspecial
    rcases hspecial with rfl | rfl
    · rcases hmark with rfl | rfl <;> rfl
    · rfl
  rename_i hspecial
  rw [Bool.or_eq_true, not_or, beq_iff_eq, beq_iff_eq] at hspecial
  split
  · rename_i hc
    rw [beq_iff_eq.1 hc]
    rfl
  split
  · rename_i hc
    rw [beq_iff_eq.1 hc]
    rfl
  split
  · rename_i hc
    rw [beq_iff_eq.1 hc]
    rfl
  split
  · exact firstChar?_plain hspecial.2 t
  split
  · rename_i hle
    exact congrArg some (ofNat_hexValue_take 2 (by decide) (Nat.lt_succ_of_le hle) t)
  split
  · rename_i hle
    exact congrArg some (ofNat_hexValue_take 4 (by decide) (Nat.lt_succ_of_le hle) t)
  · have hlt : c.toNat < Nat.pow 16 8 := c.val.toNat_lt
    exact congrArg some (ofNat_hexValue_take 8 (by decide) hlt t)

theorem escape_ne_nil (mark c : Char) : escape mark c ≠ [] := by
  rw [escape]
  repeat' split
  all_goals exact List.cons_ne_nil _ _

theorem flatMap_escape_injective {mark : Char} (hmark : IsMark mark) {t t' : Text}
    (h : t.flatMap (escape mark) = t'.flatMap (escape mark)) : t = t' := by
  induction t generalizing t' with
  | nil =>
      cases t' with
      | nil => rfl
      | cons c' t' =>
          exact absurd (List.append_eq_nil_iff.1 h.symm).1 (escape_ne_nil mark c')
  | cons c t ih =>
      cases t' with
      | nil => exact absurd (List.append_eq_nil_iff.1 h).1 (escape_ne_nil mark c)
      | cons c' t' =>
          have hread := congrArg firstChar? h
          rw [List.flatMap_cons, List.flatMap_cons, firstChar?_escape hmark,
            firstChar?_escape hmark, Option.some.injEq, Prod.mk.injEq] at hread
          rw [hread.1, ih hread.2]

theorem encode_injective {t t' : Text} (h : encode t = encode t') : t = t' := by
  obtain ⟨hmark, hrest⟩ := List.cons.inj h
  rw [← hmark] at hrest
  exact flatMap_escape_injective (isMark_markFor t) (List.append_cancel_right hrest)

theorem not_mem_escape {mark : Char} (hmark : IsMark mark) (c : Char) : '\n' ∉ escape mark c := by
  rw [escape]
  split
  · rename_i hspecial
    rw [Bool.or_eq_true, beq_iff_eq, beq_iff_eq] at hspecial
    rcases hspecial with rfl | rfl
    · rcases hmark with rfl | rfl <;> decide
    · decide
  split
  · decide
  rename_i hfeed
  have hne : '\n' ≠ c := fun h => hfeed (beq_iff_eq.2 h.symm)
  repeat' split
  all_goals simp [not_mem_hex, hne]

theorem not_mem_encode (t : Text) : '\n' ∉ encode t := by
  have hmark := isMark_markFor t
  have hne : '\n' ≠ markFor t := by rcases hmark with h | h <;> rw [h] <;> decide
  simp [encode, hne, not_mem_escape hmark]

end Quoted

/-- Quoted text determines what it quotes. -/
theorem quoted_injective {s s' : String} (h : quoted s = quoted s') : s = s' :=
  String.toList_inj.1 (Quoted.encode_injective (String.ofList_inj.1 h))

theorem not_mem_quoted (s : String) : '\n' ∉ (quoted s).toList := by
  rw [quoted, String.toList_ofList]
  exact Quoted.not_mem_encode s.toList

/-! ## Numbers -/

namespace Layout

theorem not_mem_toDigits (n : Nat) : '\n' ∉ Nat.toDigits 10 n := fun h =>
  nomatch Nat.isDigit_of_mem_toDigits (by decide) (by decide) h

theorem not_mem_padded (width n : Nat) : '\n' ∉ padded width n := by
  simp [padded, not_mem_toDigits]

variable {digits : Text} (h : '\n' ∉ digits)
include h

theorem not_mem_positional (place : Int) : '\n' ∉ technical.positional digits place := by
  rw [positional.eq_def]
  split
  · simp [technical, h]
  · simp [technical, h]
  · rename_i n
    have htake : '\n' ∉ digits.take (n + 1) := fun hmem => h (List.mem_of_mem_take hmem)
    have hdrop : '\n' ∉ digits.drop (n + 1) := fun hmem => h (List.mem_of_mem_drop hmem)
    split <;> simp [technical, h, htake, hdrop]

theorem not_mem_scientific (exponent : Int) : '\n' ∉ technical.scientific digits exponent := by
  have htake : '\n' ∉ digits.take 1 := fun hmem => h (List.mem_of_mem_take hmem)
  have hdrop : '\n' ∉ digits.drop 1 := fun hmem => h (List.mem_of_mem_drop hmem)
  simp only [scientific]
  split <;> split <;> simp_all [technical, not_mem_padded]

omit h

theorem not_mem_magnitude (d : Double.Decimal) : '\n' ∉ technical.magnitude d := by
  have hdigits : '\n' ∉ ((Nat.toDigits 10 d.digits).reverse.dropWhile (· == '0')).reverse :=
    fun hmem => not_mem_toDigits d.digits <| List.mem_reverse.1 <|
      (List.dropWhile_suffix _).subset (List.mem_reverse.1 hmem)
  simp only [magnitude]
  split
  · exact not_mem_positional (by decide) 1
  split
  · exact not_mem_positional hdigits _
  · exact not_mem_scientific hdigits _

end Layout

theorem not_mem_technicalText (x : Float) : '\n' ∉ (technicalText x).toList := by
  rw [technicalText, String.toList_ofList, Layout.write]
  have hsign : '\n' ∉ (if Double.isNegative x then ['-'] else []) := by split <;> decide
  split
  · exact List.not_mem_append hsign (Layout.not_mem_magnitude _)
  split
  · exact List.not_mem_append hsign (by decide)
  · decide

end Klartext
