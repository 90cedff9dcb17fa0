import ZeroCurve.Proofs.Equation.Tokens
import ZeroCurve.Proofs.Token.Spelling

/-!
# What is noticed of an equation

Solutions are taken as angles, and looked for in a smaller or larger window, by words that the text
mentions. This never misses a function that a side calls, although calls are told by tokens.
-/

namespace ZeroCurve

/-- Whether a token is a run of letters. -/
def Token.IsName (token : Token) : Prop := Text.IsWordOf isLetter token.text

instance Token.decidableIsName : DecidablePred Token.IsName := fun _ =>
  inferInstanceAs (Decidable (Text.IsWordOf _ _))

/-- A word of letters that is found in a token is found in a run of letters. -/
theorem Token.isName_of_mentions {word : Text} (hword : Text.IsWordOf isLetter word)
    {token : Token} (h : token.WellFormed) (hmentions : Text.mentions word token.text = true) :
    token.IsName := by
  have hsign : ∀ c : Char, isLetter c = false → Text.mentions word [c] = true → False := by
    intro c hc hfound
    rw [Text.mentions_of_forall_not hword fun d hd => List.mem_singleton.1 hd ▸ hc] at hfound
    cases hfound
  cases token with
  | number text =>
    have hnumerals : ∀ c ∈ text, isLetter c = false := fun c hc => isLetter_of_isNumeral (h.2 c hc)
    rw [Token.text, Text.mentions_of_forall_not hword hnumerals] at hmentions
    cases hmentions
  | var name => exact ⟨h.1, h.2.1⟩
  | function f => exact isWordOf_name f
  | operator o => exact (hsign _ (ofSign?_symbol o).1.2 hmentions).elim
  | leftParen => exact (hsign _ rfl hmentions).elim
  | rightParen => exact (hsign _ rfl hmentions).elim
  | equals => exact (hsign _ rfl hmentions).elim

namespace Equation

/-- Whether a side of an equation calls a function. -/
def Calls (e : Equation) (f : Fn) : Prop :=
  .function f ∈ e.leftTokens ∨ .function f ∈ e.rightTokens

instance decidableCalls (e : Equation) (f : Fn) : Decidable (e.Calls f) :=
  inferInstanceAs (Decidable (_ ∨ _))

/-- A function in one of the sides is one of the tokens that were parted into sides. -/
theorem function_mem_of_mem_sides {ts : List Token} {f : Fn}
    (h : .function f ∈ (Token.sides ts).1 ∨ .function f ∈ (Token.sides ts).2) :
    .function f ∈ ts := by
  unfold Token.sides at h
  split at h
  next => simpa using h
  next c right hdrop =>
    rcases h with h | h
    · exact List.takeWhile_subset _ h
    · exact List.dropWhile_subset _ (hdrop ▸ List.mem_cons_of_mem c h)

theorem Calls.mem_scan {e : Equation} {f : Fn} (h : e.Calls f) :
    .function f ∈ Token.scan e.text := by
  apply function_mem_of_mem_sides
  rw [← scan_sides]
  exact h.imp List.mem_of_mem_take List.mem_of_mem_take

/-- The name of a function that is called stands in the text. -/
theorem Calls.name_isInfix {e : Equation} {f : Fn} (h : e.Calls f) : f.name <:+: e.text := by
  rw [← Text.mentions_iff, Token.mentions_eq_any_scan (Token.isWordOf_name f), List.any_eq_true]
  exact ⟨_, h.mem_scan, Text.mentions_iff.2 List.infix_rfl⟩

theorem mentions_iff {e : Equation} {f : Fn} : e.mentions f = true ↔ f.name <:+: e.text :=
  Text.mentions_iff

/-- An equation is the beginning of its line. -/
theorem normalize_isPrefix (t : Text) : normalize t <+: t := by
  have htrim : ∀ u : Text, Text.trimEnd (· = '\r') u <+: u := by
    intro u
    rw [← List.reverse_suffix, Text.trimEnd, List.reverse_reverse]
    exact List.dropWhile_suffix _
  exact (List.take_prefix _ _).trans ((htrim _).trans (List.takeWhile_prefix _))

theorem isPeriodic_iff {e : Equation} :
    e.isPeriodic = true ↔ ∃ f ∈ [Fn.sin, .cos, .tan], f.name <:+: e.text := by
  simp [isPeriodic, mentions_iff, or_assoc]

theorem searchWindow_of_mentions_wave {e : Equation} {f : Fn} (hf : f ∈ [Fn.sin, .cos])
    (h : f.name <:+: e.text) : e.searchWindow = ((-1.5, 1.5) : Float × Float) := by
  have hwave : (e.mentions .sin || e.mentions .cos) = true := by
    rw [Bool.or_eq_true, mentions_iff, mentions_iff]
    simp only [List.mem_cons, List.not_mem_nil, or_false] at hf
    rcases hf with rfl | rfl
    · exact .inl h
    · exact .inr h
  simp only [searchWindow, hwave, if_true]
  rfl

theorem searchWindow_of_mentions_logarithm {e : Equation} {f : Fn} (hf : f ∈ [Fn.log, .ln])
    (h : f.name <:+: e.text) :
    e.searchWindow = ((-10, 10) : Float × Float) ∨
      e.searchWindow = ((-1.5, 1.5) : Float × Float) := by
  have hlogarithm : (e.mentions .ln || e.mentions .log) = true := by
    rw [Bool.or_eq_true, mentions_iff, mentions_iff]
    simp only [List.mem_cons, List.not_mem_nil, or_false] at hf
    rcases hf with rfl | rfl
    · exact .inr h
    · exact .inl h
  simp only [searchWindow, hlogarithm, if_true]
  split
  · exact .inr rfl
  · exact .inl rfl

/-- A word of letters stands in a text just if it stands in one of the runs of letters that are the
names among its tokens. -/
theorem infix_iff_exists_name {word : Text} (hword : Text.IsWordOf Token.isLetter word) (t : Text) :
    word <:+: t ↔ ∃ token ∈ Token.scan t, token.IsName ∧ word <:+: token.text := by
  rw [← Text.mentions_iff, Token.mentions_eq_any_scan hword, List.any_eq_true]
  constructor
  · rintro ⟨token, htoken, hmentions⟩
    exact ⟨token, htoken,
      Token.isName_of_mentions hword (Token.wellFormed_of_mem_scan htoken) hmentions,
      Text.mentions_iff.1 hmentions⟩
  · rintro ⟨token, htoken, -, hinfix⟩
    exact ⟨token, htoken, Text.mentions_iff.2 hinfix⟩

/-- No function that a side of an equation calls is missed: with a sine, cosine or tangent the
solutions are angles, and sines, cosines and logarithms have their window, whether it is chosen by
the line or by the equation in it. The words for angles are those of the names among the tokens of
the text, however many these are. -/
theorem calls_are_noticed (t : Text) :
    (∀ f, (ofLine t).Calls f →
      (f ∈ [Fn.sin, .cos, .tan] → (ofLine t).isPeriodic = true) ∧
      ∀ e ∈ [ofLine t, ⟨t⟩],
        (f ∈ [Fn.sin, .cos] → e.searchWindow = ((-1.5, 1.5) : Float × Float)) ∧
        (f ∈ [Fn.log, .ln] → e.searchWindow = ((-10, 10) : Float × Float) ∨
          e.searchWindow = ((-1.5, 1.5) : Float × Float))) ∧
    ((⟨t⟩ : Equation).isPeriodic = true ↔
      ∃ token ∈ Token.scan t, token.IsName ∧
        ∃ f ∈ [Fn.sin, .cos, .tan], f.name <:+: token.text) := by
  refine ⟨fun f hcalls => ⟨fun hf => ?_, fun e he => ?_⟩, ?_⟩
  · exact isPeriodic_iff.2 ⟨f, hf, hcalls.name_isInfix⟩
  · have hinfix : f.name <:+: e.text := by
      simp only [List.mem_cons, List.not_mem_nil, or_false] at he
      rcases he with rfl | rfl
      · exact hcalls.name_isInfix
      · exact hcalls.name_isInfix.trans (normalize_isPrefix t).isInfix
    exact ⟨fun hf => searchWindow_of_mentions_wave hf hinfix,
      fun hf => searchWindow_of_mentions_logarithm hf hinfix⟩
  · rw [isPeriodic_iff]
    simp only [infix_iff_exists_name (Token.isWordOf_name _) t]
    constructor
    · rintro ⟨f, hf, token, htoken, hname, hinfix⟩
      exact ⟨token, htoken, hname, f, hf, hinfix⟩
    · rintro ⟨token, htoken, hname, f, hf, hinfix⟩
      exact ⟨f, hf, token, htoken, hname, hinfix⟩

/-- A line that calls a logarithm and a sine, and one that has a tangent in a longer name only. -/
theorem calls_are_noticed_tanh :
    (ofLine "ln(y)=tanh(x)+sin(x)\r\n".toList).Calls .ln ∧
    (ofLine "ln(y)=tanh(x)+sin(x)\r\n".toList).Calls .sin ∧
    (ofLine "ln(y)=tanh(x)+sin(x)\r\n".toList).isPeriodic = true ∧
    (ofLine "ln(y)=tanh(x)+sin(x)\r\n".toList).searchWindow = ((-1.5, 1.5) : Float × Float) ∧
    ¬ (ofLine "y=tanh(x)".toList).Calls .tan ∧
    (⟨"y=tanh(x)".toList⟩ : Equation).isPeriodic = true := by
  obtain ⟨hcalls, -⟩ := calls_are_noticed "ln(y)=tanh(x)+sin(x)\r\n".toList
  obtain ⟨-, hnames⟩ := calls_are_noticed "y=tanh(x)".toList
  have hln : (ofLine "ln(y)=tanh(x)+sin(x)\r\n".toList).Calls .ln := by decide +kernel
  have hsin : (ofLine "ln(y)=tanh(x)+sin(x)\r\n".toList).Calls .sin := by decide +kernel
  refine ⟨hln, hsin, (hcalls .sin hsin).1 (by decide),
    ((hcalls .sin hsin).2 _ List.mem_cons_self).1 (by decide), by decide +kernel, hnames.2 ?_⟩
  exact ⟨.var "tanh".toList, by decide +kernel, by decide, .tan, by decide, [], ['h'], rfl⟩

end Equation

end ZeroCurve
