import BradypOS.Printf.Format

/-!
# A format is read as it is meant

The parts of a directive are read one after another. Each of the readers stops in front of the next part, since no
character can start two of them: widths do not start with a zero, and no conversion is a decimal digit, nor the letter
that `a2u` takes for the digit ten.
-/

namespace BradypOS.Printf

open L4

variable {p : Param} {rest : List Byte} {va : List Arg}

/-! ### Fields -/

theorem shrink_eq (bf : List Byte) (n : Nat) : shrink bf n = (n - bf.length : Nat) := by
  induction bf generalizing n with
  | nil => rfl
  | cons ch bf ih =>
    rw [shrink, List.length_cons]
    split
    · rename_i more
      have step : (n : Int) - 1 = (n - 1 : Nat) := by omega
      rw [step, ih]
      omega
    · omega

def Param.pad (p : Param) : Pad := if p.lz then .zeros else if p.alignLeft then .left else .right

theorem putchw_field (small : p.width.toNat < 2 ^ 31) : putchw p = field p.pad p.width.toNat p.sign.toList (alternate p) p.bf := by
  have count : (filling p).toNat = p.width.toNat - (p.sign.toList.length + (alternate p).length + p.bf.length) := by
    have whole : p.width.toInt = (p.width.toNat : Int) := BitVec.toInt_eq_toNat_of_lt (by omega)
    unfold filling alternate
    rw [whole, shrink_eq]
    cases p.sign with
    | none =>
      simp only [Option.isSome_none, Bool.false_eq_true, if_false, Option.toList_none, List.length_nil]
      split_ifs <;> simp only [List.length_cons, List.length_nil] <;> omega
    | some ch =>
      simp only [Option.isSome_some, if_true, Option.toList_some, List.length_cons, List.length_nil]
      split_ifs <;> simp only [List.length_cons, List.length_nil] <;> omega
  unfold putchw field Param.pad
  rw [count]
  cases p.lz <;> cases p.alignLeft <;> simp

/-! ### What starts a part of a directive -/

/-- The list starts with one of `S`. -/
def Leads (S : List Byte) : List Byte → Prop
  | [] => False
  | ch :: _ => ch ∈ S

theorem Leads.append {S : List Byte} {text : List Byte} (leads : Leads S text) (rest : List Byte) : Leads S (text ++ rest) := by
  cases text with
  | nil => exact leads.elim
  | cons ch text => exact leads

theorem Leads.mono {S T : List Byte} {text : List Byte} (leads : Leads S text) (sub : S ⊆ T) : Leads T text := by
  cases text with
  | nil => exact leads
  | cons ch text => exact sub leads

def conversions : List Byte := "udixXpocs%".toList.map ascii

def modifiers : List Byte := "zl".toList.map ascii ++ conversions

def precisions : List Byte := ascii '.' :: modifiers

def widths : List Byte := "123456789".toList.map ascii ++ precisions

namespace Directive

variable (D : Directive)

theorem char_conversions (c : Conv) : c.char ∈ conversions := by
  cases c
  all_goals
    dsimp only [Conv.char]
    decide

theorem nonzero_digit : ∀ dgt < 10, dgt ≠ 0 → digitChar false dgt ∈ "123456789".toList.map ascii := by
  decide

theorem modifier_leads : Leads modifiers (D.conv.modifier ++ [D.conv.char]) := by
  have plain : Leads modifiers [D.conv.char] := List.mem_append_right _ (char_conversions D.conv)
  unfold Conv.modifier
  split
  all_goals try exact plain
  all_goals
    rename_i v _
    cases v with
    | int v => exact plain
    | size v => exact List.mem_append_left _ (by decide)
    | long v => exact List.mem_append_left _ (by decide)
    | longLong v => exact List.mem_append_left _ (by decide)

theorem precision_leads : Leads precisions (D.precisionText ++ (D.conv.modifier ++ [D.conv.char])) := by
  unfold precisionText
  cases D.precision with
  | none => exact D.modifier_leads.mono (List.subset_cons_self _ _)
  | some digits => exact List.mem_cons_self

theorem width_leads : Leads widths (D.widthText ++ (D.precisionText ++ (D.conv.modifier ++ [D.conv.char]))) := by
  unfold widthText
  cases D.width with
  | none => exact D.precision_leads.mono (List.subset_append_right _ _)
  | some n =>
    obtain ⟨n, positive, small⟩ := n
    dsimp only
    cases same : Theory.digitsMsb 10 n with
    | nil => exact absurd same (Theory.digitsMsb_ne_nil 10 n)
    | cons dgt digits =>
      have nonzero : dgt ≠ 0 := Theory.digitsMsb_head positive same
      have below : dgt < 10 := Theory.digitsMsb_lt (n := n) (by decide) (by rw [same]; exact List.mem_cons_self)
      exact List.mem_append_left _ (nonzero_digit dgt below nonzero)

end Directive

/-! ### The readers -/

def Param.flag (p : Param) : Flag → Param
  | .left => { p with alignLeft := true }
  | .zero => { p with lz := true }
  | .alt => { p with alt := true }

theorem flags_text (fs : List Flag) (leads : Leads widths rest) : flags p (fs.map Flag.char ++ rest) = (fs.foldl Param.flag p, rest) := by
  induction fs generalizing p with
  | nil =>
    cases rest with
    | nil => rfl
    | cons ch rest =>
      have plain : ∀ ch ∈ widths, ch ≠ ascii '-' ∧ ch ≠ ascii '0' ∧ ch ≠ ascii '#' := by decide
      obtain ⟨left, zero, alt⟩ := plain ch leads
      rw [List.map_nil, List.nil_append, flags, if_neg left, if_neg zero, if_neg alt]
      rfl
  | cons f fs ih =>
    rw [List.map_cons, List.cons_append, List.foldl_cons, ← ih]
    cases f <;> rfl

theorem Param.flag_all (p : Param) (fs : List Flag) : fs.foldl Param.flag p =
    { p with alignLeft := p.alignLeft || Flag.left ∈ fs, lz := p.lz || Flag.zero ∈ fs, alt := p.alt || Flag.alt ∈ fs } := by
  induction fs generalizing p with
  | nil => simp
  | cons f fs ih =>
    rw [List.foldl_cons, ih]
    cases f <;> simp [Param.flag]

theorem isDigit_digitChar : ∀ dgt < 10, isDigit (digitChar false dgt) = true := by
  decide

/-- No number goes on with a character that starts another part. -/
theorem ends_precisions (leads : Leads precisions rest) : Ends 10 rest := by
  cases rest with
  | nil => exact trivial
  | cons ch rest =>
    have letters : ∀ ch ∈ precisions, ∀ digit < 16, a2d ch = some digit → 10 < digit := by decide
    intro digit found
    by_cases small : digit < 16
    · exact letters ch leads digit small found
    · omega

theorem width_text (D : Directive) (leads : Leads precisions rest) :
    width p (D.widthText ++ rest) = ({ p with width := match D.width with | none => p.width | some n => BitVec.ofNat 32 n.1 }, rest) := by
  unfold Directive.widthText
  cases D.width with
  | none =>
    cases rest with
    | nil => exact leads.elim
    | cons ch rest =>
      have plain : ∀ ch ∈ precisions, isDigit ch = false := by decide
      rw [List.nil_append, width, plain ch leads, if_neg Bool.false_ne_true]
  | some n =>
    obtain ⟨n, positive, small⟩ := n
    dsimp only
    have below : ∀ dgt ∈ Theory.digitsMsb 10 n, dgt < 10 := fun _ member => Theory.digitsMsb_lt (by decide) member
    have read := @a2u_digits 10 false rest (by decide) (ends_precisions leads) _ below 0
    have value : _ = n := Theory.valueMsb_digitsMsb 10 n
    unfold Theory.valueMsb at value
    rw [value] at read
    cases same : Theory.digitsMsb 10 n with
    | nil => exact absurd same (Theory.digitsMsb_ne_nil 10 n)
    | cons dgt digits =>
      rw [same] at read below
      rw [List.map_cons, List.cons_append] at read ⊢
      rw [width, isDigit_digitChar dgt (below dgt List.mem_cons_self), if_pos rfl]
      rw [read]

theorem precision_text (D : Directive) (leads : Leads modifiers rest) :
    precision p (D.precisionText ++ rest) = ({ p with lz := p.lz || D.precision.isSome }, rest) := by
  have plain : ∀ ch ∈ modifiers, ch ≠ ascii '.' ∧ isDigit ch = false := by decide
  unfold Directive.precisionText
  cases rest with
  | nil => exact leads.elim
  | cons ch rest =>
    obtain ⟨point, digit⟩ := plain ch leads
    cases D.precision with
    | none =>
      rw [List.nil_append, precision, if_neg point]
      simp
    | some digits =>
      have skipped : ((digits.map fun dgt => digitChar false dgt.1) ++ ch :: rest).dropWhile isDigit = ch :: rest := by
        rw [List.dropWhile_append_of_pos]
        · rw [List.dropWhile_cons_of_neg (by simp [digit])]
        · intro ch member
          obtain ⟨dgt, -, rfl⟩ := List.mem_map.mp member
          exact isDigit_digitChar dgt.1 dgt.2
      rw [List.cons_append, precision, if_pos rfl, skipped]
      simp

def Number.lng : Number → Nat
  | int _ => 0
  | size _ | long _ => 1
  | longLong _ => 2

def Conv.lng : Conv → Nat
  | u v | d v | i v | x v | X v => v.lng
  | _ => 0

theorem modifier_text (c : Conv) (rest : List Byte) : modifier (c.modifier ++ [c.char] ++ rest) = (c.lng, c.char :: rest) := by
  cases c with
  | u v | d v | i v | x v | X v => cases v <;> rfl
  | p v | o v | c v => rfl
  | s text => rfl
  | percent => rfl

/-! ### The conversions -/

theorem signOf_spec {w : Nat} (v : BitVec w) :
    (signOf v).1 = (if v.toInt < 0 then some (ascii '-') else none) ∧ (signOf v).2.toNat = v.toInt.natAbs := by
  have less : v.slt 0 = true ↔ v.toInt < 0 := by
    rw [BitVec.slt_iff_toInt_lt]
    simp
  unfold signOf
  by_cases negative : v.toInt < 0
  · rw [if_pos negative, if_pos (less.mpr negative)]
    refine ⟨rfl, ?_⟩
    rw [BitVec.toInt_eq_toNat_cond] at negative ⊢
    have bound := v.isLt
    split at negative
    · omega
    · rename_i high
      rw [if_neg high]
      dsimp only
      rw [BitVec.toNat_neg, Nat.mod_eq_of_lt (by omega)]
      omega
  · rw [if_neg negative, if_neg (fun h => negative (less.mp h))]
    refine ⟨rfl, ?_⟩
    rw [BitVec.toInt_eq_toNat_cond] at negative ⊢
    have bound := v.isLt
    split
    · rfl
    · rename_i high
      rw [if_neg high] at negative
      omega

/-- Every number has room in `bf`, in every base that there is a conversion for. -/
theorem intoBf_digits {w base num : Nat} (uc : Bool) (eight : 8 ≤ base) (fits : num < 2 ^ w) (word : w ≤ 64) :
    intoBf (unsignedToAscii w base uc num) = some ((Theory.digitsMsb base num).map (digitChar uc)) := by
  have room : (Theory.digitsMsb base num).length ≤ 22 := by
    apply Theory.digitsMsb_length (by omega) (by decide)
    calc num < 2 ^ w := fits
      _ ≤ 2 ^ 64 := Nat.pow_le_pow_right (by decide) word
      _ ≤ 8 ^ 22 := by decide
      _ ≤ base ^ 22 := Nat.pow_le_pow_left eight 22
  rw [unsignedToAscii_digits (by omega) fits]
  unfold intoBf
  rw [Option.bind_some, if_pos]
  rw [List.length_map]
  omega

theorem unsigned_text (v : Number) (va : List Arg) (eight : 8 ≤ p.base) :
    unsigned v.lng p (v.arg :: va) = some ({ p with bf := (Theory.digitsMsb p.base v.toNat).map (digitChar p.uc) }, va) := by
  cases v with
  | int v =>
    have shown := intoBf_digits p.uc eight v.isLt (by decide)
    simp only [Number.lng, Number.arg, unsigned, ui2a, shown]
    rfl
  | size v | long v =>
    have shown := intoBf_digits p.uc eight v.isLt (by decide)
    simp only [Number.lng, Number.arg, unsigned, uli2a, shown]
    rfl
  | longLong v =>
    have shown := intoBf_digits p.uc eight v.isLt (by decide)
    simp only [Number.lng, Number.arg, unsigned, ulli2a, shown]
    rfl

theorem signed_text (v : Number) (va : List Arg) (eight : 8 ≤ p.base) :
    signed v.lng p (v.arg :: va) = some ({ p with
      bf := (Theory.digitsMsb p.base v.toInt.natAbs).map (digitChar p.uc)
      sign := if v.toInt < 0 then some (ascii '-') else none }, va) := by
  cases v with
  | int v =>
    obtain ⟨sign, magnitude⟩ := signOf_spec v
    have shown := intoBf_digits p.uc eight (signOf v).2.isLt (by decide)
    rw [magnitude] at shown
    simp only [Number.lng, Number.arg, signed, ui2a, magnitude, shown, sign]
    rfl
  | size v | long v =>
    obtain ⟨sign, magnitude⟩ := signOf_spec v
    have shown := intoBf_digits p.uc eight (signOf v).2.isLt (by decide)
    rw [magnitude] at shown
    simp only [Number.lng, Number.arg, signed, uli2a, magnitude, shown, sign]
    rfl
  | longLong v =>
    obtain ⟨sign, magnitude⟩ := signOf_spec v
    have shown := intoBf_digits p.uc eight (signOf v).2.isLt (by decide)
    rw [magnitude] at shown
    simp only [Number.lng, Number.arg, signed, ulli2a, magnitude, shown, sign]
    rfl

theorem digits_case {base : Nat} (two : 2 ≤ base) (ten : base ≤ 10) (num : Nat) (uc : Bool) :
    (Theory.digitsMsb base num).map (digitChar uc) = (Theory.digitsMsb base num).map (digitChar false) := by
  apply List.map_congr_left
  intro dgt member
  have below : dgt < base := Theory.digitsMsb_lt two member
  unfold digitChar
  rw [if_pos (by omega), if_pos (by omega)]

/-- The parameters are those that the directive sets. -/
structure Set (D : Directive) (p : Param) : Prop where
  width : p.width.toNat = (D.width.map (·.1)).getD 0
  small : p.width.toNat < 2 ^ 31
  sign : p.sign = none
  alt : p.alt = decide (.alt ∈ D.flags)
  pad : p.pad = D.pad

theorem Set.shows {D : Directive} (set : Set D p) (base : Nat) (bf : List Byte) (sign : Option Byte) (alt uc : Bool) :
    putchw { p with base, bf, sign, alt, uc } =
      field D.pad ((D.width.map (·.1)).getD 0) sign.toList (alternate { p with base, bf, sign, alt, uc }) bf := by
  have shown := putchw_field (p := { p with base, bf, sign, alt, uc }) set.small
  rwa [set.width, show Param.pad { p with base, bf, sign, alt, uc } = D.pad from set.pad] at shown

theorem alternate_decimal (decimal : p.base = 10) : alternate p = [] := by
  unfold alternate
  rw [decimal, if_neg (by omega), if_neg (by omega)]

theorem Set.unsigned {D : Directive} (set : Set D p) (va : List Arg) (v : Number) {base : Nat} (alt uc : Bool) (eight : 8 ≤ base) :
    ∃ q, (unsigned v.lng { p with base, alt, uc } (v.arg :: va)).map (fun (p, va) => (putchw p, p, va)) =
      some (field D.pad ((D.width.map (·.1)).getD 0) [] (alternate { p with base, alt, uc })
        ((Theory.digitsMsb base v.toNat).map (digitChar uc)), q, va) := by
  have read := unsigned_text (p := { p with base, alt, uc }) v va eight
  refine ⟨{ p with base, alt, uc, bf := (Theory.digitsMsb base v.toNat).map (digitChar uc) }, (congrArg _ read).trans ?_⟩
  rw [Option.map_some]
  dsimp only
  rw [set.shows, set.sign]
  rfl

theorem Set.signed {D : Directive} (set : Set D p) (va : List Arg) (v : Number) :
    ∃ q, (signed v.lng { p with base := 10 } (v.arg :: va)).map (fun (p, va) => (putchw p, p, va)) =
      some (field D.pad ((D.width.map (·.1)).getD 0) (if v.toInt < 0 then some (ascii '-') else none).toList []
        ((Theory.digitsMsb 10 v.toInt.natAbs).map (digitChar p.uc)), q, va) := by
  have read := signed_text (p := { p with base := 10 }) v va (by decide : 8 ≤ 10)
  refine ⟨{ p with
    base := 10
    bf := (Theory.digitsMsb 10 v.toInt.natAbs).map (digitChar p.uc)
    sign := if v.toInt < 0 then some (ascii '-') else none }, ?_⟩
  rw [read, Option.map_some]
  dsimp only
  rw [set.shows, alternate_decimal rfl]

theorem convert_text {D : Directive} (set : Set D p) : ∃ q, convert D.conv.char D.conv.lng p (D.conv.args ++ va) = some (D.output, q, va) := by
  unfold Directive.output
  cases same : D.conv with
  | u v =>
    obtain ⟨q, shown⟩ := set.unsigned va v p.alt p.uc (by decide : 8 ≤ 10)
    refine ⟨q, ?_⟩
    change convert (ascii 'u') v.lng p (v.arg :: va) = _
    unfold convert
    rw [if_pos rfl]
    refine shown.trans ?_
    rw [digits_case (by decide) (by decide), alternate_decimal rfl]
    rfl
  | d v | i v =>
    obtain ⟨q, shown⟩ := set.signed va v
    refine ⟨q, ?_⟩
    change convert _ v.lng p (v.arg :: va) = _
    unfold convert Conv.char
    dsimp only
    rw [if_neg (by decide), if_pos (by decide)]
    refine shown.trans ?_
    rw [digits_case (by decide) (by decide)]
    rfl
  | p v =>
    obtain ⟨q, shown⟩ := set.unsigned va (.int v) true false (by decide : 8 ≤ 16)
    refine ⟨q, ?_⟩
    change convert (ascii 'p') 0 p (.word v :: va) = _
    unfold convert
    rw [if_neg (by decide), if_neg (by decide), if_pos rfl]
    exact shown
  | x v =>
    obtain ⟨q, shown⟩ := set.unsigned va v p.alt false (by decide : 8 ≤ 16)
    refine ⟨q, ?_⟩
    change convert (ascii 'x') v.lng p (v.arg :: va) = _
    unfold convert
    rw [if_neg (by decide), if_neg (by decide), if_neg (by decide), if_pos (.inl rfl)]
    refine shown.trans ?_
    unfold alternate Conv.pre
    rw [set.alt]
    cases decide (.alt ∈ D.flags) <;> rfl
  | X v =>
    obtain ⟨q, shown⟩ := set.unsigned va v p.alt true (by decide : 8 ≤ 16)
    refine ⟨q, ?_⟩
    change convert (ascii 'X') v.lng p (v.arg :: va) = _
    unfold convert
    rw [if_neg (by decide), if_neg (by decide), if_neg (by decide), if_pos (.inr rfl)]
    refine shown.trans ?_
    unfold alternate Conv.pre
    rw [set.alt]
    cases decide (.alt ∈ D.flags) <;> rfl
  | o v =>
    obtain ⟨q, shown⟩ := set.unsigned va (.int v) p.alt p.uc (by decide : 8 ≤ 8)
    refine ⟨q, ?_⟩
    change convert (ascii 'o') 0 p (.word v :: va) = _
    unfold convert
    rw [if_neg (by decide), if_neg (by decide), if_neg (by decide), if_neg (by decide), if_pos rfl]
    refine shown.trans ?_
    rw [digits_case (by decide) (by decide)]
    unfold alternate Conv.pre
    rw [set.alt]
    cases decide (.alt ∈ D.flags) <;> rfl
  | c v => exact ⟨p, rfl⟩
  | s text =>
    have alt : p.alt = false := by
      rw [set.alt, decide_eq_false_iff_not]
      exact D.proper ⟨text, same⟩
    refine ⟨p, ?_⟩
    have step : convert (ascii 's') 0 p (.str text :: va) = some (putchw { p with bf := text }, p, va) := rfl
    refine step.trans ?_
    rw [set.shows, set.sign]
    unfold alternate
    rw [alt]
    rfl
  | percent => exact ⟨p, rfl⟩

/-! ### Formats -/

/-- What `tfpFormat` sets before it reads the flags. -/
def Param.clear (p : Param) : Param := { p with lz := false, alt := false, width := 0, alignLeft := false, sign := none }

/-- The parameters behind the parts of a directive. -/
def Param.read (p : Param) (D : Directive) : Param :=
  { p with
    width := match D.width with | none => 0 | some n => BitVec.ofNat 32 n.1
    sign := none
    alignLeft := .left ∈ D.flags
    alt := .alt ∈ D.flags
    lz := decide (.zero ∈ D.flags) || D.precision.isSome }

theorem read_set (D : Directive) (p : Param) : Set D (p.read D) := by
  have width : (p.read D).width.toNat = (D.width.map (·.1)).getD 0 ∧ (p.read D).width.toNat < 2 ^ 31 := by
    unfold Param.read
    dsimp only
    cases D.width with
    | none => exact ⟨rfl, by decide⟩
    | some n =>
      have bound := n.2.2
      simp only [BitVec.toNat_ofNat, Option.map_some, Option.getD_some]
      omega
  refine ⟨width.1, width.2, rfl, rfl, ?_⟩
  unfold Param.pad Directive.pad Param.read
  simp

theorem formatLoop_percent {fuel lng : Nat} {p₁ p₂ p₃ q : Param} {fmt fmt₁ fmt₂ fmt₃ shown : List Byte} {va' : List Arg} {ch : Byte}
    (flags_ : flags p.clear fmt = (p₁, fmt₁)) (width_ : width p₁ fmt₁ = (p₂, fmt₂)) (precision_ : precision p₂ fmt₂ = (p₃, fmt₃))
    (modifier_ : modifier fmt₃ = (lng, ch :: rest)) (convert_ : convert ch lng p₃ va = some (shown, q, va')) :
    formatLoop (fuel + 1) p (ascii '%' :: fmt) va = (formatLoop fuel q rest va').map (shown ++ ·) := by
  unfold Param.clear at flags_
  rw [formatLoop, if_neg (fun h => h rfl)]
  simp only [flags_, width_, precision_, modifier_, convert_, Option.bind_eq_bind, Option.bind_some]
  cases formatLoop fuel q rest va' <;> rfl

/-- A directive is read as it is meant, whatever follows it. -/
theorem directive_text (D : Directive) {fuel : Nat} : ∃ q, formatLoop (fuel + 1) p (D.text ++ rest) (D.conv.args ++ va) =
    (formatLoop fuel q rest va).map (D.output ++ ·) := by
  have modifier_leads : Leads modifiers (D.conv.modifier ++ [D.conv.char] ++ rest) := D.modifier_leads.append rest
  have precision_leads : Leads precisions (D.precisionText ++ (D.conv.modifier ++ [D.conv.char] ++ rest)) := by
    rw [← List.append_assoc]
    exact D.precision_leads.append rest
  have width_leads : Leads widths (D.widthText ++ (D.precisionText ++ (D.conv.modifier ++ [D.conv.char] ++ rest))) := by
    have leads := D.width_leads.append rest
    rwa [List.append_assoc, List.append_assoc] at leads
  have text : D.text ++ rest =
      ascii '%' :: (D.flags.map Flag.char ++ (D.widthText ++ (D.precisionText ++ (D.conv.modifier ++ [D.conv.char] ++ rest)))) := by
    unfold Directive.text
    simp
  have set : Set D _ := read_set D (p.clear)
  obtain ⟨q, shown⟩ := @convert_text _ va D set
  refine ⟨q, ?_⟩
  rw [text]
  apply formatLoop_percent (flags_text D.flags width_leads) (width_text D precision_leads) (precision_text D modifier_leads)
    (modifier_text D.conv rest)
  rw [Param.flag_all, ← shown]
  congr 1

/-- Every format shows its characters and the values of its directives. -/
theorem formatLoop_pieces (pieces : List Piece) {fuel : Nat} (enough : (pieces.flatMap Piece.text).length ≤ fuel) :
    formatLoop fuel p (pieces.flatMap Piece.text) (pieces.flatMap Piece.args) = some (pieces.flatMap Piece.output) := by
  induction pieces generalizing p fuel with
  | nil => cases fuel <;> rfl
  | cons piece pieces ih =>
    rw [List.flatMap_cons, List.length_append] at enough
    rw [List.flatMap_cons, List.flatMap_cons, List.flatMap_cons]
    cases piece with
    | char ch plain =>
      have one : (Piece.char ch plain).text.length = 1 := rfl
      obtain ⟨fuel, rfl⟩ : ∃ f, fuel = f + 1 := ⟨fuel - 1, by omega⟩
      rw [Piece.text, List.singleton_append, formatLoop, if_pos plain, Piece.args, List.nil_append, ih (by omega)]
      rfl
    | directive D =>
      have one : 1 ≤ (Piece.directive D).text.length := Nat.succ_le_succ (Nat.zero_le _)
      obtain ⟨fuel, rfl⟩ : ∃ f, fuel = f + 1 := ⟨fuel - 1, by omega⟩
      obtain ⟨q, round⟩ : ∃ q, formatLoop (fuel + 1) p (D.text ++ pieces.flatMap Piece.text) (D.conv.args ++ pieces.flatMap Piece.args) =
          (formatLoop fuel q _ _).map _ := directive_text D
      exact round.trans (by rw [ih (by omega)]; rfl)

end BradypOS.Printf
