import ZeroCurve.Proofs.Token.Runs

/-!
# Writing tokens out

The text of a token is read back as that token, and with a blank between each two a whole list is
read back: a blank ends the run before it and leaves no token of its own.
-/

namespace ZeroCurve.Token

instance decidableWellFormed : DecidablePred WellFormed
  | .number text =>
    decidable_of_iff (text ≠ [] ∧ text.all isNumeral = true) (by simp [WellFormed])
  | .var name =>
    decidable_of_iff (name ≠ [] ∧ name.all isLetter = true ∧ Fn.ofName? name = none)
      (by simp [WellFormed])
  | .function _ | .operator _ | .leftParen | .rightParen | .equals => .isTrue trivial

theorem isNumeral_of_isLetter {c : Char} (h : isLetter c = true) : isNumeral c = false := by
  by_contra hnumeral
  rw [isLetter_of_isNumeral (by simpa using hnumeral)] at h
  cases h

/-- A single sign is read as the token that it stands for. -/
theorem scan_sign {c : Char} (hc : IsBreak c) {t : Token} (ht : ofSign? c = some t) :
    scan [c] = [t] := by
  rw [scan, hc.1, hc.2, ht, scan]
  rfl

theorem ofSign?_symbol (o : Op) : IsBreak o.symbol ∧ ofSign? o.symbol = some (.operator o) := by
  cases o <;> exact ⟨⟨by decide, by decide⟩, rfl⟩

/-- A run of letters is read as one name. -/
theorem scan_name {name : Text} (hne : name ≠ []) (hall : ∀ c ∈ name, isLetter c = true) :
    scan name = [ofName name] := by
  obtain ⟨c, cs, rfl, hc, htake, hdrop⟩ := List.run_cons hne hall
  rw [scan, isNumeral_of_isLetter hc, hc, htake, hdrop, scan]
  rfl

/-- A token that can be read from some text is read from its own. -/
theorem scan_text {t : Token} (h : t.WellFormed) : scan t.text = [t] := by
  cases t with
  | number text =>
    obtain ⟨c, cs, hcut, hc, htake, hdrop⟩ := List.run_cons h.1 h.2
    rw [Token.text, hcut, scan, if_pos hc, htake, hdrop, scan]
  | var name =>
    have hname : ofName name = .var name := by rw [ofName, h.2.2]
    rw [Token.text, scan_name h.1 h.2.1, hname]
  | function f =>
    have hword := isWordOf_name f
    have hname : ofName f.name = .function f := by rw [ofName, Fn.ofName?_name]
    rw [Token.text, scan_name hword.ne_nil hword.forall_mem, hname]
  | operator o => exact scan_sign (ofSign?_symbol o).1 (ofSign?_symbol o).2
  | leftParen => exact scan_sign ⟨by decide, by decide⟩ rfl
  | rightParen => exact scan_sign ⟨by decide, by decide⟩ rfl
  | equals => exact scan_sign ⟨by decide, by decide⟩ rfl

theorem wellFormed_ofName {name : Text} (hne : name ≠ []) (hall : ∀ c ∈ name, isLetter c = true) :
    (ofName name).WellFormed := by
  cases h : Fn.ofName? name with
  | none => simpa only [ofName, h] using ⟨hne, hall, h⟩
  | some f => simp only [ofName, h, WellFormed]

theorem wellFormed_ofSign? {c : Char} {t : Token} (h : ofSign? c = some t) : t.WellFormed := by
  unfold ofSign? at h
  split at h
  · cases h; trivial
  split at h
  · cases h; trivial
  split at h
  · cases h; trivial
  obtain ⟨o, -, rfl⟩ := Option.map_eq_some_iff.1 h
  trivial

theorem wellFormed_of_mem_scan {text : Text} {t : Token} (h : t ∈ scan text) : t.WellFormed := by
  fun_induction scan text with
  | case1 => cases h
  | case2 c cs hc ih =>
    rcases List.mem_cons.1 h with rfl | h
    · exact ⟨List.cons_ne_nil _ _, List.forall_mem_run hc cs⟩
    · exact ih h
  | case3 c cs hnumeral hc ih =>
    rcases List.mem_cons.1 h with rfl | h
    · exact wellFormed_ofName (List.cons_ne_nil _ _) (List.forall_mem_run hc cs)
    · exact ih h
  | case4 c cs hnumeral hletter s hs ih =>
    rcases List.mem_cons.1 h with rfl | h
    · exact wellFormed_ofSign? hs
    · exact ih h
  | case5 c cs hnumeral hletter hs ih => exact ih h

/-- The texts of tokens with a blank between each two. -/
def spelled (ts : List Token) : Text := Text.joinWith [' '] (ts.map text)

theorem isDropped_blank : IsDropped ' ' := ⟨⟨by decide, by decide⟩, by decide⟩

theorem scan_spelled {ts : List Token} (h : ∀ t ∈ ts, t.WellFormed) : scan (spelled ts) = ts := by
  induction ts with
  | nil => rw [spelled, List.map_nil, Text.joinWith, scan]
  | cons t ts ih =>
    have ht : scan t.text = [t] := scan_text (h t List.mem_cons_self)
    have hts : scan (spelled ts) = ts := ih fun u hu => h u (List.mem_cons_of_mem t hu)
    cases ts with
    | nil => exact ht
    | cons u us =>
      have hjoin : spelled (t :: u :: us) = t.text ++ ' ' :: spelled (u :: us) := by
        simp [spelled, Text.joinWith]
      rw [hjoin, scan_append_break isDropped_blank.1, scan_cons_dropped isDropped_blank, ht, hts,
        List.singleton_append]

theorem scanUpTo_spelled_of_length_le {ts : List Token} {limit : Int}
    (h : ∀ t ∈ ts, t.WellFormed) (hlimit : ts.length ≤ limit.toNat) :
    scanUpTo limit (spelled ts) = ts := by
  rw [scanUpTo, scan_spelled h, List.take_of_length_le hlimit]

/-- Reading undoes writing: tokens that are written out with blanks between them are read back, if
the limit leaves room for them, and so reading a text, writing its tokens out and reading them again
is the same as reading it once. -/
theorem scanUpTo_spelled :
    (∀ (ts : List Token) (limit : Int), (∀ t ∈ ts, t.WellFormed) → (ts.length : Int) ≤ limit →
      scanUpTo limit (spelled ts) = ts) ∧
    ∀ (limit : Int) (e : Text), scanUpTo limit (spelled (scanUpTo limit e)) = scanUpTo limit e := by
  constructor
  · intro ts limit h hlimit
    exact scanUpTo_spelled_of_length_le h (by omega)
  · intro limit e
    have hread : ∀ t ∈ scanUpTo limit e, t.WellFormed := by
      intro t ht
      exact wellFormed_of_mem_scan (List.mem_of_mem_take ht)
    exact scanUpTo_spelled_of_length_le hread (List.length_take_le _ _)

/-- Neighbours that would run together without the blanks: two numbers, two names, a name that holds
that of a function, and a function. -/
theorem scanUpTo_spelled_neighbours :
    let ts : List Token := [.number "1.2.3".toList, .number ".".toList, .var "sinh".toList,
      .function .sin, .leftParen, .operator .pow, .equals]
    (∀ t ∈ ts, t.WellFormed) ∧ spelled ts = "1.2.3 . sinh sin ( ^ =".toList ∧
      scanUpTo 7 (spelled ts) = ts := by
  intro ts
  have hts : ∀ t ∈ ts, t.WellFormed := by decide
  exact ⟨hts, by decide, scanUpTo_spelled.1 ts 7 hts (by decide)⟩

end ZeroCurve.Token
