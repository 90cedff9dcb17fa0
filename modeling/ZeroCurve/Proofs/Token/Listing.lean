import ZeroCurve.Proofs.Numeral.RoundTrip
import ZeroCurve.Proofs.Text.Parts
import ZeroCurve.Proofs.Token.Segmentation
import ZeroCurve.Token.Listing

/-!
# What a listing tells

A listing tells of each token its sort, of a number its value and of any other token its text, and
nothing else: two texts are listed alike if and only if their tokens agree in this
(`listing_scanUpTo_eq_iff`). The blanks of a listing are those between its descriptions, so it can be
taken to pieces again, and no description passes for one of another sort.
-/

namespace ZeroCurve.Token

open Numeral

/-- Tokens of one sort that have the same value, if they are numbers, or else the same text. -/
structure Alike (t u : Token) : Prop where
  kind_eq : t.kind = u.kind
  value_eq : t.kind = .number → (t.value : Float) = u.value
  text_eq : t.kind ≠ .number → t.text = u.text

section

variable {t u : Token} (hkind : t.kind = u.kind)
include hkind

theorem alike_iff_value_eq (h : t.kind = .number) : Alike t u ↔ (t.value : Float) = u.value :=
  ⟨fun halike => halike.value_eq h, fun hvalue => ⟨hkind, fun _ => hvalue, fun hne => absurd h hne⟩⟩

theorem alike_iff_text_eq (h : t.kind ≠ .number) : Alike t u ↔ t.text = u.text :=
  ⟨fun halike => halike.text_eq h, fun htext => ⟨hkind, fun heq => absurd heq h, fun _ => htext⟩⟩

end

/-- The first character of a description, which only depends on the sort of the token. -/
def Kind.initial : Kind → Char
  | .number => 'N'
  | .var => 'V'
  | .function => 'F'
  | .operator => 'O'
  | .leftParen => 'L'
  | .rightParen => 'R'
  | .equals => 'E'

theorem Kind.initial_injective : Function.Injective Kind.initial := by
  intro k l h
  cases k <;> cases l <;> first | rfl | exact absurd h (by decide)

theorem head?_describe (t : Token) : (describe t).head? = some t.kind.initial := by
  cases t <;> rfl

theorem kind_eq_of_describe_eq {t u : Token} (h : describe t = describe u) : t.kind = u.kind := by
  apply Kind.initial_injective
  rw [← Option.some_inj, ← head?_describe, ← head?_describe, h]

theorem quoted_inj {kind : String} {a b : Text} : quoted kind a = quoted kind b ↔ a = b := by
  simp [quoted]

theorem describe_number_eq_iff {a b : Text} :
    describe (.number a) = describe (.number b) ↔
      ((number a).value : Float) = (number b).value := by
  show "Number(".toList ++ shortest (number a).value ++ ")".toList =
    "Number(".toList ++ shortest (number b).value ++ ")".toList ↔ _
  rw [List.append_left_inj, List.append_right_inj]
  exact shortest_inj (Double.isNonneg_ofDecimal _) (Double.isNonneg_ofDecimal _)

/-- A description tells the sort of a token and what it carries. -/
theorem describe_eq_iff {t u : Token} : describe t = describe u ↔ Alike t u := by
  by_cases hkind : t.kind = u.kind
  · cases t with
    | number a =>
      cases u with
      | number b => rw [alike_iff_value_eq hkind rfl, describe_number_eq_iff]
      | _ => cases hkind
    | var a =>
      cases u with
      | var b => exact quoted_inj.trans (alike_iff_text_eq hkind nofun).symm
      | _ => cases hkind
    | function f =>
      cases u with
      | function g => exact quoted_inj.trans (alike_iff_text_eq hkind nofun).symm
      | _ => cases hkind
    | operator o =>
      cases u with
      | operator p => exact quoted_inj.trans (alike_iff_text_eq hkind nofun).symm
      | _ => cases hkind
    | leftParen =>
      cases u with
      | leftParen => exact iff_of_true rfl ((alike_iff_text_eq hkind nofun).2 rfl)
      | _ => cases hkind
    | rightParen =>
      cases u with
      | rightParen => exact iff_of_true rfl ((alike_iff_text_eq hkind nofun).2 rfl)
      | _ => cases hkind
    | equals =>
      cases u with
      | equals => exact iff_of_true rfl ((alike_iff_text_eq hkind nofun).2 rfl)
      | _ => cases hkind
  · exact iff_of_false (fun h => hkind (kind_eq_of_describe_eq h)) fun h => hkind h.kind_eq

/-- No number is written with a blank. -/
theorem blank_notMem_shortest (d : Decimal) : ' ' ∉ shortest (Scalar.ofDecimal d) := by
  rcases Double.ofDecimal_cases d with hinfinity | ⟨p, hparts, hnegative⟩
  · rw [hinfinity]
    decide
  · intro hmem
    exact absurd ((isLiteral_shortest hparts hnegative).mem_literalMarks _ hmem) (by decide)

theorem blank_notMem_quoted {kind : String} {a : Text} (hkind : ' ' ∉ kind.toList) (ha : ' ' ∉ a) :
    ' ' ∉ quoted kind a := by
  simp [quoted, hkind, ha]

theorem WellFormed.isPart_describe {t : Token} (h : t.WellFormed) :
    Text.IsPart ' ' (describe t) where
  ne_nil := by
    intro hnil
    have hhead := head?_describe t
    rw [hnil] at hhead
    cases hhead
  gap_notMem := by
    cases t with
    | number text =>
      exact List.not_mem_append (List.not_mem_append (by decide) (blank_notMem_shortest _)) (by decide)
    | var name =>
      exact blank_notMem_quoted (by decide) fun hmem => absurd (h.2.1 _ hmem) (by decide)
    | function f => cases f <;> decide
    | operator o => cases o <;> decide
    | leftParen | rightParen | equals => decide

theorem listing_eq_iff {ts us : List Token} (hts : ∀ t ∈ ts, t.WellFormed)
    (hus : ∀ u ∈ us, u.WellFormed) : listing ts = listing us ↔ List.Forall₂ Alike ts us := by
  have hparts : ∀ {ts : List Token}, (∀ t ∈ ts, t.WellFormed) →
      ∀ part ∈ ts.map describe, Text.IsPart ' ' part := by
    intro ts hts part hpart
    obtain ⟨t, ht, rfl⟩ := List.mem_map.1 hpart
    exact (hts t ht).isPart_describe
  have halike : Alike = fun t u => describe t = describe u := by
    funext t u
    exact propext describe_eq_iff.symm
  rw [listing, listing, Text.joinWith_inj (hparts hts) (hparts hus), halike,
    ← List.forall₂_map_right_iff (R := fun t part => describe t = part),
    ← List.forall₂_map_left_iff (R := fun part part' => part = part'), List.forall₂_eq_eq_eq]

/-- The tokens of two texts are listed alike if and only if they are as many, and one by one of the
same sort, numbers of the same value and all others of the same text. -/
theorem listing_scanUpTo_eq_iff (limit limit' : Int) (t t' : Text) :
    listing (scanUpTo limit t) = listing (scanUpTo limit' t') ↔
      List.Forall₂ Alike (scanUpTo limit t) (scanUpTo limit' t') := by
  have hread : ∀ (limit : Int) (t : Text), ∀ token ∈ scanUpTo limit t, token.WellFormed :=
    fun _ _ _ htoken => wellFormed_of_mem_scan (List.mem_of_mem_take htoken)
  exact listing_eq_iff (hread limit t) (hread limit' t')

/-- Neither the spelling of a number nor what stands between the tokens is listed. -/
example : listing (scanUpTo 9 "1.50.2(".toList) = listing (scanUpTo 9 "01.5 (".toList) := by
  decide +kernel

end ZeroCurve.Token
