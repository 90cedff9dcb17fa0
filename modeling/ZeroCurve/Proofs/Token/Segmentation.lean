import Mathlib.Data.List.Chain
import ZeroCurve.Proofs.Token.Spelling
import ZeroCurve.Scalar.Double

/-!
# Words and gaps

A text falls apart into words and the gaps between them in just one way, if runs are taken as long as
they can be (`exists_segments`, `Segmentation.IsMaximal.eq_of_text_eq`). Its tokens are what these
words spell, one token for each word.
-/

namespace ZeroCurve.Token

/-- The sorts of tokens. -/
inductive Kind where
  | number
  | var
  | function
  | operator
  | leftParen
  | rightParen
  | equals
deriving DecidableEq, Repr

/-- The sort of a token. -/
def kind : Token → Kind
  | .number _ => .number
  | .var _ => .var
  | .function _ => .function
  | .operator _ => .operator
  | .leftParen => .leftParen
  | .rightParen => .rightParen
  | .equals => .equals

/-- The sort of token that a word spells: a run of letters is a function only if it is the whole name
of one. -/
def Kind.ofWord (word : Text) : Kind :=
  if word.all isNumeral then .number
  else if word.all isLetter then if word ∈ Fn.all.map Fn.name then .function else .var
  else if word = ['='] then .equals
  else if word = ['('] then .leftParen
  else if word = [')'] then .rightParen
  else .operator

theorem WellFormed.kind_eq {t : Token} (h : t.WellFormed) : t.kind = Kind.ofWord t.text := by
  cases t with
  | number text =>
    have hall : text.all isNumeral = true := List.all_eq_true.2 h.2
    rw [Token.text, Kind.ofWord, if_pos hall, kind]
  | var name =>
    obtain ⟨c, cs, rfl, hc, -⟩ := List.run_cons h.1 h.2.1
    have hnumeral : (c :: cs).all isNumeral = false := by
      rw [List.all_cons, isNumeral_of_isLetter hc, Bool.false_and]
    have hall : (c :: cs).all isLetter = true := List.all_eq_true.2 h.2.1
    have hname : c :: cs ∉ Fn.all.map Fn.name := by
      intro hmem
      obtain ⟨f, -, hf⟩ := List.mem_map.1 hmem
      have hnone := h.2.2
      rw [← hf, Fn.ofName?_name] at hnone
      cases hnone
    rw [Token.text, Kind.ofWord, hnumeral, if_neg (by decide), if_pos hall, if_neg hname, kind]
  | function f => cases f <;> decide
  | operator o => cases o <;> decide
  | leftParen => decide
  | rightParen => decide
  | equals => decide

theorem value_eq {α : Type} [Scalar α] (t : Token) :
    (t.value : α) =
      if t.kind = .number then Scalar.ofDecimal (Decimal.leading t.text) else Scalar.ofInt 0 := by
  cases t <;> rfl

/-- The signs that are tokens by themselves. -/
def signs : Text := ['=', '(', ')', '+', '-', '*', '/', '^']

/-- Whether no token is made of a character. -/
def isForeign (c : Char) : Bool := !isNumeral c && !isLetter c && !signs.contains c

/-- The words: runs of numerals, runs of letters, and the signs one by one. -/
inductive IsWord : Text → Prop
  | numerals {word : Text} (h : Text.IsWordOf isNumeral word) : IsWord word
  | letters {word : Text} (h : Text.IsWordOf isLetter word) : IsWord word
  | sign {c : Char} (h : c ∈ signs) : IsWord [c]

/-- Two runs of the same class. -/
def SameRun (v w : Text) : Prop :=
  Text.IsWordOf isNumeral v ∧ Text.IsWordOf isNumeral w ∨
    Text.IsWordOf isLetter v ∧ Text.IsWordOf isLetter w

theorem isWord_iff {word : Text} :
    IsWord word ↔
      Text.IsWordOf isNumeral word ∨ Text.IsWordOf isLetter word ∨ word ∈ signs.map fun c => [c] := by
  constructor
  · rintro (h | h | h)
    · exact .inl h
    · exact .inr (.inl h)
    · exact .inr (.inr (List.mem_map_of_mem h))
  · rintro (h | h | h)
    · exact .numerals h
    · exact .letters h
    · obtain ⟨c, hc, rfl⟩ := List.mem_map.1 h
      exact .sign hc

instance decidableIsWord : DecidablePred IsWord := fun _ => decidable_of_iff _ isWord_iff.symm

instance decidableSameRun : DecidableRel SameRun := fun _ _ => inferInstanceAs (Decidable (_ ∨ _))

/-- A text in pieces: a gap, and then words, each with the gap behind it. -/
structure Segmentation where
  gap : Text
  pieces : List (Text × Text)

namespace Segmentation

/-- The text that was taken to pieces. -/
def text (s : Segmentation) : Text := s.gap ++ s.pieces.flatMap fun p => p.1 ++ p.2

/-- The words, in order. -/
def words (s : Segmentation) : List Text := s.pieces.map Prod.fst

/-- Gaps have foreign characters only, and no run could be longer: between two runs of the same class
there is something. -/
structure IsMaximal (s : Segmentation) : Prop where
  gap_foreign : ∀ c ∈ s.gap, isForeign c = true
  gaps_foreign : ∀ p ∈ s.pieces, ∀ c ∈ p.2, isForeign c = true
  isWord : ∀ p ∈ s.pieces, IsWord p.1
  apart : s.pieces.IsChain fun p q => p.2 = [] → ¬ SameRun p.1 q.1

instance decidableIsMaximal : DecidablePred IsMaximal := fun s =>
  decidable_of_iff
    (s.gap.all isForeign = true ∧ (∀ p ∈ s.pieces, p.2.all isForeign = true ∧ IsWord p.1) ∧
      s.pieces.IsChain fun p q => p.2 = [] → ¬ SameRun p.1 q.1) (by
    simp only [List.all_eq_true]
    constructor
    · rintro ⟨hgap, hpieces, hchain⟩
      exact ⟨hgap, fun p hp => (hpieces p hp).1, fun p hp => (hpieces p hp).2, hchain⟩
    · rintro ⟨hgap, hgaps, hwords, hchain⟩
      exact ⟨hgap, fun p hp => ⟨hgaps p hp, hwords p hp⟩, hchain⟩)

/-- A way to take a text to pieces, with runs as long as they can be. -/
structure Segments (s : Segmentation) (t : Text) : Prop where
  isMaximal : s.IsMaximal
  text_eq : s.text = t

end Segmentation

theorem isBreak_of_isForeign {c : Char} (h : isForeign c = true) : IsBreak c := by
  simp only [isForeign, Bool.and_eq_true, Bool.not_eq_true'] at h
  exact h.1

theorem isBreak_of_mem_signs {c : Char} (h : c ∈ signs) : IsBreak c := by
  have hall : signs.all (fun c => !isNumeral c && !isLetter c) = true := by decide
  simpa [IsBreak] using List.all_eq_true.1 hall c h

theorem mem_signs_of_ofSign? {c : Char} {t : Token} (h : ofSign? c = some t) : c ∈ signs := by
  unfold ofSign? at h
  split at h
  next hc => rw [hc]; decide
  split at h
  next hc => rw [hc]; decide
  split at h
  next hc => rw [hc]; decide
  obtain ⟨o, ho, -⟩ := Option.map_eq_some_iff.1 h
  rw [← Op.symbol_of_ofSymbol? ho]
  cases o <;> decide

theorem notMem_signs_of_ofSign? {c : Char} (h : ofSign? c = none) : c ∉ signs := by
  have hall : signs.all (fun c => (ofSign? c).isSome) = true := by decide
  intro hc
  have hsome := List.all_eq_true.1 hall c hc
  rw [h] at hsome
  cases hsome

theorem isForeign_eq_false {c : Char} :
    isForeign c = false ↔ isNumeral c = true ∨ isLetter c = true ∨ c ∈ signs := by
  simp [isForeign, or_iff_not_imp_left]

namespace IsWord

theorem exists_cons {word : Text} (h : IsWord word) : ∃ c cs, word = c :: cs := by
  cases h with
  | numerals h => exact List.exists_cons_of_ne_nil h.ne_nil
  | letters h => exact List.exists_cons_of_ne_nil h.ne_nil
  | sign h => exact ⟨_, _, rfl⟩

theorem ne_nil {word : Text} (h : IsWord word) : word ≠ [] := by
  obtain ⟨c, cs, rfl⟩ := h.exists_cons
  exact List.cons_ne_nil c cs

theorem not_isForeign {word : Text} (h : IsWord word) : ∀ c ∈ word, isForeign c = false := by
  intro c hc
  rw [isForeign_eq_false]
  cases h with
  | numerals h => exact .inl (h.forall_mem c hc)
  | letters h => exact .inr (.inl (h.forall_mem c hc))
  | sign h => exact .inr (.inr (List.mem_singleton.1 hc ▸ h))

end IsWord

/-- A character of the class of a run, which would be longer with it. -/
def Continues (word : Text) (c : Char) : Prop :=
  Text.IsWordOf isNumeral word ∧ isNumeral c = true ∨
    Text.IsWordOf isLetter word ∧ isLetter c = true

/-- A text does not go on with the run that stands before it. -/
def Stops (word rest : Text) : Prop := ∀ c ∈ rest.head?, ¬ Continues word c

theorem not_continues_of_isBreak {word : Text} {c : Char} (h : IsBreak c) : ¬ Continues word c := by
  rintro (⟨-, hc⟩ | ⟨-, hc⟩)
  · rw [h.1] at hc; cases hc
  · rw [h.2] at hc; cases hc

theorem not_isWordOf_isLetter {word : Text} (h : Text.IsWordOf isNumeral word) :
    ¬ Text.IsWordOf isLetter word := by
  intro hletters
  obtain ⟨c, hc⟩ := List.exists_mem_of_ne_nil word h.ne_nil
  have hnumeral := isNumeral_of_isLetter (hletters.forall_mem c hc)
  rw [h.forall_mem c hc] at hnumeral
  cases hnumeral

theorem stops_numerals_iff {word rest : Text} (h : Text.IsWordOf isNumeral word) :
    Stops word rest ↔ ∀ c ∈ rest.head?, isNumeral c = false := by
  simp [Stops, Continues, h, not_isWordOf_isLetter h]

theorem stops_letters_iff {word rest : Text} (h : Text.IsWordOf isLetter word) :
    Stops word rest ↔ ∀ c ∈ rest.head?, isLetter c = false := by
  have hnumerals : ¬ Text.IsWordOf isNumeral word := fun hn => not_isWordOf_isLetter hn h
  simp [Stops, Continues, h, hnumerals]

/-- A word is told by its first character. -/
theorem IsWord.sameRun_iff {v : Text} {c : Char} {cs : Text} (h : IsWord (c :: cs)) :
    SameRun v (c :: cs) ↔ Continues v c := by
  have hhead : c ∈ c :: cs := List.mem_cons_self
  constructor
  · rintro (⟨hv, hw⟩ | ⟨hv, hw⟩)
    · exact .inl ⟨hv, hw.forall_mem c hhead⟩
    · exact .inr ⟨hv, hw.forall_mem c hhead⟩
  · intro hcontinues
    cases h with
    | numerals h =>
      rcases hcontinues with ⟨hv, -⟩ | ⟨-, hc⟩
      · exact .inl ⟨hv, h⟩
      · have := isNumeral_of_isLetter hc
        rw [h.forall_mem c hhead] at this
        cases this
    | letters h =>
      rcases hcontinues with ⟨-, hc⟩ | ⟨hv, -⟩
      · have := isLetter_of_isNumeral hc
        rw [h.forall_mem c hhead] at this
        cases this
      · exact .inr ⟨hv, h⟩
    | sign h => exact absurd hcontinues (not_continues_of_isBreak (isBreak_of_mem_signs h))

namespace Segmentation

theorem isMaximal_nil_iff {gap : Text} :
    (⟨gap, []⟩ : Segmentation).IsMaximal ↔ ∀ c ∈ gap, isForeign c = true :=
  ⟨fun h => h.gap_foreign,
    fun h => ⟨h, by simp, by simp, .nil⟩⟩

/-- What follows a word begins with the gap behind it, or with the next word if there is no gap. -/
theorem stops_text_iff {word gap : Text} {pieces : List (Text × Text)}
    (hgap : ∀ c ∈ gap, isForeign c = true) (hwords : ∀ p ∈ pieces, IsWord p.1) :
    Stops word (⟨gap, pieces⟩ : Segmentation).text ↔
      ∀ q ∈ pieces.head?, gap = [] → ¬ SameRun word q.1 := by
  cases gap with
  | cons c gap =>
    have hbreak := isBreak_of_isForeign (hgap c List.mem_cons_self)
    simpa [Stops, text] using not_continues_of_isBreak hbreak
  | nil =>
    cases pieces with
    | nil => simp [Stops, text]
    | cons q pieces =>
      obtain ⟨next, behind⟩ := q
      have hnext : IsWord next := hwords _ List.mem_cons_self
      obtain ⟨c, cs, rfl⟩ := hnext.exists_cons
      simp [Stops, text, hnext.sameRun_iff]

theorem isMaximal_cons_iff {gap word behind : Text} {pieces : List (Text × Text)} :
    (⟨gap, (word, behind) :: pieces⟩ : Segmentation).IsMaximal ↔
      (∀ c ∈ gap, isForeign c = true) ∧ IsWord word ∧
        Stops word (⟨behind, pieces⟩ : Segmentation).text ∧
        (⟨behind, pieces⟩ : Segmentation).IsMaximal := by
  constructor
  · rintro ⟨hgap, hgaps, hwords, hchain⟩
    rw [List.forall_mem_cons] at hgaps hwords
    rw [List.isChain_cons] at hchain
    exact ⟨hgap, hwords.1, (stops_text_iff hgaps.1 hwords.2).2 hchain.1,
      ⟨hgaps.1, hgaps.2, hwords.2, hchain.2⟩⟩
  · rintro ⟨hgap, hword, hstops, hbehind, hgaps, hwords, hchain⟩
    refine ⟨hgap, List.forall_mem_cons.2 ⟨hbehind, hgaps⟩, List.forall_mem_cons.2 ⟨hword, hwords⟩, ?_⟩
    exact List.isChain_cons.2 ⟨(stops_text_iff hbehind hwords).1 hstops, hchain⟩

end Segmentation

/-- The longest word at the front of a text that begins with no gap. -/
def firstWord : Text → Text
  | [] => []
  | c :: cs =>
    if isNumeral c then c :: cs.takeWhile isNumeral
    else if isLetter c then c :: cs.takeWhile isLetter
    else [c]

/-- A word that what follows does not go on with is the first one. -/
theorem IsWord.firstWord_append {word rest : Text} (h : IsWord word) (hstops : Stops word rest) :
    firstWord (word ++ rest) = word := by
  cases h with
  | numerals h =>
    obtain ⟨c, cs, rfl, hc, -⟩ := List.run_cons h.ne_nil h.forall_mem
    rw [List.cons_append, firstWord, if_pos hc,
      List.takeWhile_run (fun d hd => h.forall_mem d (List.mem_cons_of_mem c hd))
        ((stops_numerals_iff h).1 hstops)]
  | letters h =>
    obtain ⟨c, cs, rfl, hc, -⟩ := List.run_cons h.ne_nil h.forall_mem
    rw [List.cons_append, firstWord, isNumeral_of_isLetter hc, if_neg (by decide), if_pos hc,
      List.takeWhile_run (fun d hd => h.forall_mem d (List.mem_cons_of_mem c hd))
        ((stops_letters_iff h).1 hstops)]
  | sign h =>
    have hbreak := isBreak_of_mem_signs h
    rw [List.singleton_append, firstWord, hbreak.1, hbreak.2]
    rfl

namespace Segmentation

/-- The gap at the front reaches up to the first word. -/
theorem IsMaximal.takeWhile_text {s : Segmentation} (h : s.IsMaximal) :
    s.text.takeWhile isForeign = s.gap := by
  refine List.takeWhile_run h.gap_foreign fun c hc => ?_
  obtain ⟨gap, pieces⟩ := s
  cases pieces with
  | nil => cases hc
  | cons p pieces =>
    have hword : IsWord p.1 := h.isWord p List.mem_cons_self
    obtain ⟨d, ds, hd⟩ := hword.exists_cons
    have hcd : d = c := by simpa [hd] using hc
    exact hword.not_isForeign c (by simp [hd, hcd])

theorem IsMaximal.gap_eq {s s' : Segmentation} (h : s.IsMaximal) (h' : s'.IsMaximal)
    (htext : s.text = s'.text) : s.gap = s'.gap := by
  rw [← h.takeWhile_text, htext, h'.takeWhile_text]

theorem IsMaximal.pieces_eq_nil {gap : Text} {pieces : List (Text × Text)}
    (h : (⟨gap, pieces⟩ : Segmentation).IsMaximal)
    (htext : (⟨gap, pieces⟩ : Segmentation).text = gap) : pieces = [] := by
  cases pieces with
  | nil => rfl
  | cons p pieces =>
    rw [text, List.append_right_eq_self, List.flatMap_cons, List.append_eq_nil_iff,
      List.append_eq_nil_iff] at htext
    exact absurd htext.1.1 (h.isWord p List.mem_cons_self).ne_nil

/-- A text has one segmentation at most. -/
theorem IsMaximal.eq_of_text_eq {s s' : Segmentation} (h : s.IsMaximal) (h' : s'.IsMaximal)
    (htext : s.text = s'.text) : s = s' := by
  obtain ⟨gap, pieces⟩ := s
  induction pieces generalizing gap s' with
  | nil =>
    obtain ⟨gap', pieces'⟩ := s'
    obtain rfl : gap = gap' := h.gap_eq h' htext
    have hnil : (⟨gap, []⟩ : Segmentation).text = gap := List.append_nil gap
    rw [h'.pieces_eq_nil (htext.symm.trans hnil)]
  | cons p pieces ih =>
    obtain ⟨gap', pieces'⟩ := s'
    obtain rfl : gap = gap' := h.gap_eq h' htext
    obtain ⟨word, behind⟩ := p
    obtain ⟨-, hword, hstops, htail⟩ := isMaximal_cons_iff.1 h
    cases pieces' with
    | nil =>
      have hnil : (⟨gap, []⟩ : Segmentation).text = gap := List.append_nil gap
      cases h.pieces_eq_nil (htext.trans hnil)
    | cons p' pieces' =>
      obtain ⟨word', behind'⟩ := p'
      obtain ⟨-, hword', hstops', htail'⟩ := isMaximal_cons_iff.1 h'
      have hrest : word ++ (⟨behind, pieces⟩ : Segmentation).text =
          word' ++ (⟨behind', pieces'⟩ : Segmentation).text := by
        simpa [text] using htext
      obtain rfl : word = word' := by
        rw [← hword.firstWord_append hstops, hrest, hword'.firstWord_append hstops']
      have hbehind := ih htail' behind htail (List.append_cancel_left hrest)
      cases hbehind
      rfl

/-- A word in front of a segmentation that does not go on with it. -/
theorem Segments.cons {s : Segmentation} {word rest : Text} (h : s.Segments rest)
    (hword : IsWord word) (hstops : Stops word rest) :
    (⟨[], (word, s.gap) :: s.pieces⟩ : Segmentation).Segments (word ++ rest) where
  isMaximal := isMaximal_cons_iff.2 ⟨by simp, hword, h.text_eq.symm ▸ hstops, h.isMaximal⟩
  text_eq := by simp [text, ← h.text_eq]

/-- The words of a text are its characters without the foreign ones. -/
theorem IsMaximal.flatten_words {s : Segmentation} (h : s.IsMaximal) :
    s.words.flatten = s.text.filter fun c => !isForeign c := by
  have hgap : ∀ gap : Text, (∀ c ∈ gap, isForeign c = true) →
      gap.filter (fun c => !isForeign c) = [] := by
    intro gap hgap
    rw [List.filter_eq_nil_iff]
    intro c hc
    simp [hgap c hc]
  obtain ⟨gap, pieces⟩ := s
  induction pieces generalizing gap with
  | nil => simpa [words, text] using hgap gap h.gap_foreign
  | cons p pieces ih =>
    obtain ⟨word, behind⟩ := p
    obtain ⟨hforeign, hword, -, htail⟩ := isMaximal_cons_iff.1 h
    have hkept : word.filter (fun c => !isForeign c) = word := by
      rw [List.filter_eq_self]
      intro c hc
      simp [hword.not_isForeign c hc]
    have htext : (⟨gap, (word, behind) :: pieces⟩ : Segmentation).text =
        gap ++ (word ++ (⟨behind, pieces⟩ : Segmentation).text) := by simp [text]
    rw [htext, List.filter_append, List.filter_append, hgap gap hforeign, hkept, ← ih behind htail]
    rfl

end Segmentation

/-- Every text has a segmentation, and its words are the texts of the tokens. -/
theorem exists_segments (t : Text) :
    ∃ s : Segmentation, s.Segments t ∧ s.words = (scan t).map Token.text := by
  fun_induction scan t with
  | case1 => exact ⟨⟨[], []⟩, ⟨Segmentation.isMaximal_nil_iff.2 (by simp), rfl⟩, rfl⟩
  | case2 c cs hc ih =>
    obtain ⟨s, hs, hwords⟩ := ih
    have hrun : Text.IsWordOf isNumeral (c :: cs.takeWhile isNumeral) :=
      ⟨List.cons_ne_nil _ _, List.forall_mem_run hc cs⟩
    have hstops := (stops_numerals_iff hrun).2 (List.head?_dropWhile_eq_false isNumeral cs)
    have hsegments := hs.cons (.numerals hrun) hstops
    rw [List.cons_append, List.takeWhile_append_dropWhile] at hsegments
    exact ⟨_, hsegments, congrArg (_ :: ·) hwords⟩
  | case3 c cs hnumeral hc ih =>
    obtain ⟨s, hs, hwords⟩ := ih
    have hrun : Text.IsWordOf isLetter (c :: cs.takeWhile isLetter) :=
      ⟨List.cons_ne_nil _ _, List.forall_mem_run hc cs⟩
    have hstops := (stops_letters_iff hrun).2 (List.head?_dropWhile_eq_false isLetter cs)
    have hsegments := hs.cons (.letters hrun) hstops
    rw [List.cons_append, List.takeWhile_append_dropWhile] at hsegments
    refine ⟨_, hsegments, ?_⟩
    rw [List.map_cons, text_ofName, ← hwords]
    rfl
  | case4 c cs hnumeral hletter token htoken ih =>
    obtain ⟨s, hs, hwords⟩ := ih
    have hsign : IsWord [c] := .sign (mem_signs_of_ofSign? htoken)
    have hstops : Stops [c] cs := by
      rintro d - (⟨hrun, -⟩ | ⟨hrun, -⟩)
      · exact hnumeral (hrun.forall_mem c List.mem_cons_self)
      · exact hletter (hrun.forall_mem c List.mem_cons_self)
    refine ⟨_, hs.cons hsign hstops, ?_⟩
    rw [List.map_cons, text_of_ofSign? htoken, ← hwords]
    rfl
  | case5 c cs hnumeral hletter htoken ih =>
    obtain ⟨s, ⟨hmaximal, htext⟩, hwords⟩ := ih
    have hforeign : isForeign c = true := by
      simpa [isForeign, hnumeral, hletter] using notMem_signs_of_ofSign? htoken
    refine ⟨⟨c :: s.gap, s.pieces⟩, ⟨?_, congrArg (c :: ·) htext⟩, hwords⟩
    exact ⟨List.forall_mem_cons.2 ⟨hforeign, hmaximal.gap_foreign⟩, hmaximal.gaps_foreign,
      hmaximal.isWord, hmaximal.apart⟩

theorem Segmentation.Segments.words_eq {s : Segmentation} {t : Text} (h : s.Segments t) :
    s.words = (scan t).map Token.text := by
  obtain ⟨s', h', hwords⟩ := exists_segments t
  have heq : s = s' := h.isMaximal.eq_of_text_eq h'.isMaximal (h.text_eq.trans h'.text_eq.symm)
  rw [heq, hwords]

/-- A text falls apart into words and gaps in just one way, and its tokens are what the words spell,
from the first on and as many as the limit allows: the sort of a token, its text and its value are
read off its word. Without a limit the tokens have all characters of the text but the foreign
ones. -/
theorem scanUpTo_reads_words {α : Type} [Scalar α] (t : Text) :
    (∃! s : Segmentation, s.Segments t) ∧
    ∀ s : Segmentation, s.Segments t →
      (∀ limit : Int,
        (scanUpTo limit t).map (fun token => (token.kind, token.text, (token.value : α))) =
          (s.words.take (max 0 limit).toNat).map fun word => (Kind.ofWord word, word,
            if Kind.ofWord word = .number then Scalar.ofDecimal (Decimal.leading word)
            else Scalar.ofInt 0)) ∧
      ∀ limit : Int, s.words.length ≤ limit →
        (scanUpTo limit t).flatMap Token.text = t.filter fun c => !isForeign c := by
  constructor
  · obtain ⟨s, h, -⟩ := exists_segments t
    refine ⟨s, h, fun s' h' => ?_⟩
    exact h'.isMaximal.eq_of_text_eq h.isMaximal (h'.text_eq.trans h.text_eq.symm)
  intro s h
  constructor
  · intro limit
    have hlimit : (max 0 limit).toNat = limit.toNat := by omega
    rw [h.words_eq, ← List.map_take, List.map_map, hlimit, scanUpTo]
    apply List.map_congr_left
    intro token htoken
    have hkind := (wellFormed_of_mem_scan (List.mem_of_mem_take htoken)).kind_eq
    rw [Function.comp_apply, ← hkind, value_eq]
  · intro limit hlimit
    rw [h.words_eq, List.length_map] at hlimit
    rw [scanUpTo, List.take_of_length_le (by omega), List.flatMap_def, ← h.words_eq,
      h.isMaximal.flatten_words, h.text_eq]

/-- A run of points and digits, the name of a function, a name that only holds one, and a sign, with
foreign characters around them. -/
theorem scanUpTo_reads_words_mixed :
    let t : Text := " 1.2.siné sinh(!".toList
    let s : Segmentation := ⟨" ".toList, [("1.2.".toList, []), ("sin".toList, "é ".toList),
      ("sinh".toList, []), ("(".toList, "!".toList)]⟩
    s.Segments t ∧
      (scanUpTo 3 t).map (fun token => (token.kind, token.text, (token.value : Float))) =
        [(.number, "1.2.".toList, 1.2), (.function, "sin".toList, 0), (.var, "sinh".toList, 0)] ∧
      (scanUpTo 4 t).flatMap Token.text = "1.2.sinsinh(".toList := by
  intro t s
  have hs : s.Segments t := ⟨by decide, by decide⟩
  have hread := (scanUpTo_reads_words (α := Float) t).2 s hs
  exact ⟨hs, hread.1 3, (hread.2 4 (by decide)).trans (by decide)⟩

end ZeroCurve.Token
