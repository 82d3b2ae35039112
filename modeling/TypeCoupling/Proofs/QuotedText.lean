import Mathlib
import TypeCoupling.Toml.Quoted

/-!
Quoted text reads back.

Whichever way a text is quoted in, reading undoes it: an escape stands for the character that it was
written for, and marks that belong to the text are told from the closing ones, since no three of
them stand in a row. Up to two marks may stand right before the closing ones; these are given back
to the text.
-/

namespace TypeCoupling.Toml

/-! ### Escapes -/

/-- Characters that a test tells apart. -/
lemma ne_of_test {p : Char → Bool} {c d : Char} (hc : p c = true) (hd : p d = false) : c ≠ d :=
  ne_of_apply_ne p (by rw [hc, hd]; decide)

lemma hexDigit?_upperHexDigit {n : Nat} (h : n < 16) : hexDigit? (upperHexDigit n) = some n := by
  have hall : ∀ n < 16, hexDigit? (upperHexDigit n) = some n := by decide
  exact hall n h

lemma charOf?_toNat (c : Char) : charOf? c.toNat = some c := by
  have hvalid : c.toNat.isValidChar := c.valid
  rw [charOf?, if_pos hvalid, Char.ofNat_toNat]

/-- The hexadecimal escape of a control character. -/
lemma escaped?_hex {c : Char} (h : c.toNat < 256) (s : List Char) :
    escaped? ('u' :: '0' :: '0' :: upperHexDigit (c.toNat / 16) ::
      upperHexDigit (c.toNat % 16) :: s) = some (c, 5) := by
  have hhigh : hexDigit? (upperHexDigit (c.toNat / 16)) = some (c.toNat / 16) :=
    hexDigit?_upperHexDigit (by omega)
  have hlow : hexDigit? (upperHexDigit (c.toNat % 16)) = some (c.toNat % 16) :=
    hexDigit?_upperHexDigit (Nat.mod_lt _ (by decide))
  have hzero : hexDigit? '0' = some 0 := by decide
  have hnumber : hexNumber? ['0', '0', upperHexDigit (c.toNat / 16), upperHexDigit (c.toNat % 16)]
      = some c.toNat := by
    simp [hexNumber?, hzero, hhigh, hlow]
    omega
  simp [escaped?, hexEscape?, hnumber, charOf?_toNat, quote]

lemma isPrintable_of_not_control {c : Char} (hcontrol : isControl c = false) (hbreak : c ≠ '\n') :
    isPrintable c = true := by
  simp [isControl, isPrintable, hbreak] at hcontrol ⊢
  omega

/-- What may stand for itself where escapes are read, apart from quotes and line breaks. -/
lemma escapeChar_eq_self {c : Char} (hcontrol : isControl c = false) (hquote : c ≠ quote)
    (hslash : c ≠ '\\') (hbreak : c ≠ '\n') : escapeChar c = [c] := by
  have hne : ∀ d, isControl d = true → c ≠ d := fun d hd => (ne_of_test hd hcontrol).symm
  simp [escapeChar, hne '\x08' (by decide), hne '\t' (by decide), hne '\x0c' (by decide),
    hne '\r' (by decide), hcontrol, hquote, hslash, hbreak]

/-- A character is written as it is, or as an escape that stands for it. -/
lemma escapeChar_cases (c : Char) :
    (escapeChar c = [c] ∧ isControl c = false ∧ c ≠ quote ∧ c ≠ '\\' ∧ c ≠ '\n') ∨
      ∃ code, escapeChar c = '\\' :: code ∧ (∀ s, escaped? (code ++ s) = some (c, code.length)) ∧
        ∀ s, breaksLine (code ++ s) = false := by
  fun_cases escapeChar c with
  | case1 | case2 | case3 | case4 | case5 | case6 | case7 =>
    rename_i h
    obtain rfl := eq_of_beq h
    exact .inr ⟨_, rfl, fun s => rfl, fun s => rfl⟩
  | case8 _ _ _ _ _ _ _ h =>
    refine .inr ⟨_, rfl, fun s => escaped?_hex ?_ s, fun s => rfl⟩
    simp [isControl] at h
    omega
  | case9 _ _ hbreak _ _ hquote hslash h =>
    exact .inl ⟨rfl, by simpa using h, by simpa using hquote, by simpa using hslash,
      by simpa using hbreak⟩

/-! ### Texts in one line -/

lemma readBasic_skip (code s : List Char) :
    readBasic (code ++ s) code.length = readBasic s 0 := by
  induction code with
  | nil => rfl
  | cons c code ih => exact ih

/-- **Step**: a character as it is written reads back. -/
lemma readBasic_escapeChar (c : Char) (s : List Char) :
    readBasic (escapeChar c ++ s) 0 = consRead c (readBasic s 0) := by
  rcases escapeChar_cases c with ⟨hself, hcontrol, hquote, hslash, hbreak⟩ | ⟨code, hcode, hread, -⟩
  · simp [hself, readBasic, hquote, hslash, isPrintable_of_not_control hcontrol hbreak]
  · simp [hcode, readBasic, hread, readBasic_skip, quote]

/-- **Run**: so does a text with its closing quote. -/
lemma readBasic_flatMap (text rest : List Char) :
    readBasic (text.flatMap escapeChar ++ quote :: rest) 0 = some (text, rest) := by
  induction text with
  | nil => rfl
  | cons c text ih =>
    rw [List.flatMap_cons, List.append_assoc, readBasic_escapeChar, ih]
    rfl

lemma readLiteral_append {text : List Char}
    (h : ∀ c ∈ text, isPrintable c = true ∧ c ≠ apostrophe) (rest : List Char) :
    readLiteral (text ++ apostrophe :: rest) = some (text, rest) := by
  induction text with
  | nil => rfl
  | cons c text ih =>
    obtain ⟨⟨hprint, hne⟩, htext⟩ := List.forall_mem_cons.mp h
    simp [readLiteral, hprint, hne, ih htext, consRead]

/-! ### Texts between triple marks -/

section Lines

variable {mark : Char} {escapes : Bool}

/-- Fewer than three marks and another character are not three marks. -/
lemma not_marks {n : Nat} (hn : n ≤ 2) {c : Char} (hc : c ≠ mark) (s : List Char) :
    [mark, mark, mark].isPrefixOf (List.replicate n mark ++ c :: s) = false := by
  have hcases : n = 0 ∨ n = 1 ∨ n = 2 := by omega
  rcases hcases with rfl | rfl | rfl <;>
    simp [List.replicate, List.isPrefixOf, hc.symm]

lemma readLines_skip (code s : List Char) :
    readLines mark escapes false (code ++ s) code.length = readLines mark escapes false s 0 := by
  induction code with
  | nil => rw [List.nil_append, List.length_nil]
  | cons c code ih => rw [List.cons_append, List.length_cons, readLines, ih]

/-- Up to two marks before the closing ones belong to the text. -/
lemma readLines_close {n : Nat} (hn : n ≤ 2) {rest : List Char} (hrest : rest.head? ≠ some mark) :
    readLines mark escapes false (List.replicate n mark ++ mark :: mark :: mark :: rest) 0
      = some (List.replicate n mark, rest) := by
  have htake : rest.takeWhile (· == mark) = [] := by
    rcases rest with _ | ⟨c, rest⟩
    · rfl
    · have hc : c ≠ mark := by simpa using hrest
      simp [hc]
  have hcases : n = 0 ∨ n = 1 ∨ n = 2 := by omega
  rcases hcases with rfl | rfl | rfl <;>
    simp [List.replicate, readLines, closeLines, htake]

/-- **Step**: a character that stands for itself where no three marks are. -/
lemma readLines_cons {c : Char} (hcontrol : isControl c = false)
    (hslash : c = '\\' → escapes = false) {s : List Char}
    (hmarks : [mark, mark, mark].isPrefixOf (c :: s) = false) :
    readLines mark escapes false (c :: s) 0 = consRead c (readLines mark escapes false s 0) := by
  have hreturn : c ≠ '\r' := (ne_of_test (by decide) hcontrol).symm
  have hescape : (c == '\\' && escapes) = false := by
    rcases eq_or_ne c '\\' with h | h
    · rw [hslash h, Bool.and_false]
    · rw [beq_false_of_ne h, Bool.false_and]
  have hstands : (c == '\n' || isPrintable c) = true := by
    rcases eq_or_ne c '\n' with rfl | h
    · rfl
    · rw [isPrintable_of_not_control hcontrol h, Bool.or_true]
  simp [readLines, hmarks, hescape, hreturn, hstands]

/-- **Step**: a character as it is written where escapes are read. -/
lemma readLines_escapeChar (c : Char) (s : List Char) :
    readLines quote true false (escapeChar c ++ s) 0
      = consRead c (readLines quote true false s 0) := by
  rcases escapeChar_cases c with
    ⟨hself, hcontrol, hquote, hslash, -⟩ | ⟨code, hcode, hread, hbreaks⟩
  · rw [hself]
    exact readLines_cons hcontrol (fun h => absurd h hslash) (not_marks (Nat.zero_le 2) hquote s)
  · have hmarks : [quote, quote, quote].isPrefixOf ('\\' :: (code ++ s)) = false := rfl
    simp [hcode, readLines, hmarks, hbreaks, hread, readLines_skip]

/-- A text without three marks in a row starts with at most two, unless it is nothing else. -/
lemma exists_run {text : List Char} (h : hasThree mark text = false) :
    ∃ n ≤ 2, text = List.replicate n mark ∨
      ∃ c s, c ≠ mark ∧ text = List.replicate n mark ++ c :: s := by
  rcases text with _ | ⟨a, text⟩
  · exact ⟨0, by decide, .inl rfl⟩
  rcases ne_or_eq a mark with ha | rfl
  · exact ⟨0, by decide, .inr ⟨a, text, ha, rfl⟩⟩
  rcases text with _ | ⟨b, text⟩
  · exact ⟨1, by decide, .inl rfl⟩
  rcases ne_or_eq b a with hb | rfl
  · exact ⟨1, by decide, .inr ⟨b, text, hb, rfl⟩⟩
  rcases text with _ | ⟨c, text⟩
  · exact ⟨2, le_rfl, .inl rfl⟩
  · refine ⟨2, le_rfl, .inr ⟨c, text, ?_, rfl⟩⟩
    rintro rfl
    simp [hasThree] at h

lemma hasThree_tail {c : Char} {text : List Char} (h : hasThree mark (c :: text) = false) :
    hasThree mark text = false := by
  rcases text with _ | ⟨a, _ | ⟨b, text⟩⟩
  · rfl
  · rfl
  · rw [hasThree, Bool.or_eq_false_iff] at h
    exact h.2

/-- **Run**: a text whose characters stand for themselves. -/
lemma readLines_append {text : List Char} (hmarks : hasThree mark text = false)
    (hcontrol : ∀ c ∈ text, isControl c = false) (hslash : '\\' ∈ text → escapes = false)
    {rest : List Char} (hrest : rest.head? ≠ some mark) :
    readLines mark escapes false (text ++ mark :: mark :: mark :: rest) 0 = some (text, rest) := by
  induction text with
  | nil => exact readLines_close (Nat.zero_le 2) hrest
  | cons c text ih =>
    -- marks to the end of the text run into the closing ones; other marks do not make three
    obtain ⟨n, hn, hall | ⟨d, s, hd, hrun⟩⟩ := exists_run hmarks
    · rw [hall]
      exact readLines_close hn hrest
    · obtain ⟨hc, htext⟩ := List.forall_mem_cons.mp hcontrol
      have hnot : [mark, mark, mark].isPrefixOf
          (c :: (text ++ mark :: mark :: mark :: rest)) = false := by
        rw [← List.cons_append, hrun, List.append_assoc, List.cons_append]
        exact not_marks hn hd _
      have hslash' : c = '\\' → escapes = false := fun h => hslash (h ▸ List.mem_cons_self)
      rw [List.cons_append, readLines_cons hc hslash' hnot, ih (hasThree_tail hmarks) htext
        fun h => hslash (List.mem_cons_of_mem c h)]
      rfl

end Lines

lemma exists_escapeChar_cons (c : Char) : ∃ d s, d ≠ quote ∧ escapeChar c = d :: s := by
  rcases escapeChar_cases c with ⟨hself, -, hquote, -⟩ | ⟨code, hcode, -⟩
  · exact ⟨c, [], hquote, hself⟩
  · exact ⟨'\\', code, by decide, hcode⟩

/-- After `quotes` quotes a text is written with so few at its start that no three are in a row,
unless it is nothing else. -/
lemma exists_run_escapeLines {quotes : Nat} (hq : quotes ≤ 2) (text : List Char) :
    ∃ n, quotes + n ≤ 2 ∧
      (text = List.replicate n quote ∧ escapeLines quotes text = List.replicate n quote ∨
        ∃ c s, c ≠ quote ∧ escapeLines quotes text = List.replicate n quote ++ c :: s) := by
  fun_induction escapeLines quotes text with
  | case1 => exact ⟨0, hq, .inl ⟨rfl, rfl⟩⟩
  | case2 quotes c text _ _ _ | case5 quotes c text _ _ _ =>
    obtain ⟨d, s, hd, hcons⟩ := exists_escapeChar_cons c
    exact ⟨0, hq, .inr ⟨d, s ++ escapeLines 0 text, hd, by rw [hcons]; rfl⟩⟩
  | case3 quotes c text hc htwo ih =>
    have htwo : quotes ≠ 2 := by simpa using htwo
    obtain rfl := eq_of_beq hc
    obtain ⟨n, hn, ⟨htext, hwritten⟩ | ⟨d, s, hd, hwritten⟩⟩ := ih (by omega)
    · exact ⟨n + 1, by omega, .inl ⟨by rw [htext]; rfl, by rw [hwritten]; rfl⟩⟩
    · exact ⟨n + 1, by omega, .inr ⟨d, s, hd, by rw [hwritten]; rfl⟩⟩
  | case4 quotes c text hc _ _ =>
    exact ⟨0, hq, .inr ⟨c, _, by simpa using hc, rfl⟩⟩

/-- **Run**: a text with escapes over several lines. -/
lemma readLines_escapeLines {quotes : Nat} (hq : quotes ≤ 2) (text : List Char) {rest : List Char}
    (hrest : rest.head? ≠ some quote) :
    readLines quote true false (escapeLines quotes text ++ quote :: quote :: quote :: rest) 0
      = some (text, rest) := by
  fun_induction escapeLines quotes text with
  | case1 => exact readLines_close (Nat.zero_le 2) hrest
  | case2 quotes c text _ _ ih | case5 quotes c text _ _ ih =>
    rw [List.append_assoc, readLines_escapeChar, ih (Nat.zero_le 2)]
    rfl
  | case3 quotes c text hc htwo ih =>
    have hwrite : escapeLines quotes (c :: text) = c :: escapeLines (quotes + 1) text := by
      rw [escapeLines, if_pos hc, if_neg htwo]
    have htwo : quotes ≠ 2 := by simpa using htwo
    obtain rfl := eq_of_beq hc
    -- as for texts without escapes, with the quotes of the written text
    obtain ⟨n, hn, ⟨htext, hwritten⟩ | ⟨d, s, hd, hwritten⟩⟩ :=
      exists_run_escapeLines hq (quote :: text)
    · rw [← hwrite, hwritten, htext]
      exact readLines_close (by omega) hrest
    · have hnot : [quote, quote, quote].isPrefixOf (quote :: (escapeLines (quotes + 1) text ++
          quote :: quote :: quote :: rest)) = false := by
        rw [← List.cons_append, ← hwrite, hwritten, List.append_assoc, List.cons_append]
        exact not_marks (by omega) hd _
      rw [List.cons_append, readLines_cons (by decide) (fun h => absurd h (by decide)) hnot,
        ih (by omega)]
      rfl
  | case4 quotes c text hc hbreak ih =>
    obtain rfl := eq_of_beq hbreak
    rw [List.cons_append, readLines_cons (by decide) (fun h => absurd h (by decide))
      (not_marks (Nat.zero_le 2) (by decide) _), ih (Nat.zero_le 2)]
    rfl

/-! ### Quoted texts -/

lemma afterMarks?_cons_of_ne {mark c : Char} (h : c ≠ mark) (s : List Char) :
    afterMarks? mark (c :: s) = none := by
  rcases s with _ | ⟨a, _ | ⟨b, s⟩⟩ <;> simp [afterMarks?, h]

lemma afterMarks?_eq_none {mark : Char} {body rest : List Char} (hbody : body.head? ≠ some mark)
    (hrest : rest.head? ≠ some mark) :
    afterMarks? mark (mark :: (body ++ mark :: rest)) = none := by
  rcases body with _ | ⟨c, body⟩
  · rcases rest with _ | ⟨d, rest⟩
    · rfl
    · have hd : d ≠ mark := by simpa using hrest
      simp [afterMarks?, hd]
  · have hc : c ≠ mark := by simpa using hbody
    rcases body with _ | ⟨d, body⟩ <;> simp [afterMarks?, hc]

/-- Single marks are told from triple ones, also around nothing. -/
lemma readQuoted?_line {mark : Char} (hmark : mark = quote ∨ mark = apostrophe)
    {body rest : List Char} (hbody : body.head? ≠ some mark) (hrest : rest.head? ≠ some mark) :
    readQuoted? (mark :: (body ++ mark :: rest)) = readLine? (mark :: (body ++ mark :: rest)) := by
  have hsame := afterMarks?_eq_none hbody hrest
  rcases hmark with rfl | rfl
  · rw [readQuoted?, hsame, afterMarks?_cons_of_ne (by decide)]
  · rw [readQuoted?, hsame, afterMarks?_cons_of_ne (by decide)]

/-- Escapes between double quotes. -/
lemma readQuoted?_escapes (text : List Char) {rest : List Char} (hrest : rest.head? ≠ some quote) :
    readQuoted? (quote :: (text.flatMap escapeChar ++ quote :: rest)) = some (text, rest) := by
  have hhead : (text.flatMap escapeChar).head? ≠ some quote := by
    rcases text with _ | ⟨c, text⟩
    · simp
    · obtain ⟨d, s, hd, hcons⟩ := exists_escapeChar_cons c
      simpa [hcons] using hd
  rw [readQuoted?_line (.inl rfl) hhead hrest]
  exact readBasic_flatMap text rest

lemma dropBreak_of_head {s : List Char} (hbreak : s.head? ≠ some '\n')
    (hreturn : s.head? ≠ some '\r') : dropBreak s = s := by
  fun_cases dropBreak s with
  | case1 => simp at hbreak
  | case2 => simp at hreturn
  | case3 => rfl

/-- The line break after the opening marks does not belong to the text. -/
lemma readQuoted?_betweenMarks {mark : Char} (hmark : mark = quote ∨ mark = apostrophe)
    {text body rest : List Char}
    (hbody : '\n' ∈ text ∨ body = text ∧ ∀ c ∈ text, isControl c = false)
    (hread : readLines mark (mark == quote) false (body ++ mark :: mark :: mark :: rest) 0
      = some (text, rest)) :
    readQuoted? (betweenMarks mark text body ++ rest) = some (text, rest) := by
  have hmarks : ∀ s, readQuoted? (mark :: mark :: mark :: s)
      = readLines mark (mark == quote) false (dropBreak s) 0 := by
    rcases hmark with rfl | rfl <;> exact fun s => rfl
  by_cases hlines : '\n' ∈ text
  · simpa [betweenMarks, hlines, hmarks, dropBreak] using hread
  · obtain ⟨rfl, hcontrol⟩ := hbody.resolve_left hlines
    have hdrop : dropBreak (body ++ mark :: mark :: mark :: rest)
        = body ++ mark :: mark :: mark :: rest := by
      rcases body with _ | ⟨c, body⟩
      · rcases hmark with rfl | rfl <;> rfl
      · have hc : isControl c = false := hcontrol c List.mem_cons_self
        refine dropBreak_of_head ?_ ?_
        · rintro ⟨⟩
          exact hlines List.mem_cons_self
        · rintro ⟨⟩
          exact absurd hc (by decide)
    simpa [betweenMarks, hlines, hmarks, hdrop] using hread

/-- **Quoted text reads back**, whatever follows it but more marks. -/
lemma readQuoted?_writeQuoted (text : List Char) {rest : List Char}
    (hquote : rest.head? ≠ some quote) (hmark : rest.head? ≠ some apostrophe) :
    readQuoted? (writeQuoted text ++ rest) = some (text, rest) := by
  fun_cases writeQuoted text with
  | case1 control multiline backslash h =>
    have hplain : (((∀ c ∈ text, isControl c = false) ∧ '\\' ∉ text) ∧ quote ∉ text) ∧
        '\n' ∉ text := by
      simpa [control, multiline, backslash] using h
    obtain ⟨⟨⟨hcontrol, hslash⟩, hnone⟩, hbreak⟩ := hplain
    have hself : text.flatMap escapeChar = text := by
      rw [List.flatMap_congr fun c hc => escapeChar_eq_self (hcontrol c hc)
        (ne_of_mem_of_not_mem hc hnone) (ne_of_mem_of_not_mem hc hslash)
        (ne_of_mem_of_not_mem hc hbreak), List.flatMap_singleton']
    have hread := readQuoted?_escapes text hquote
    rw [hself] at hread
    simpa using hread
  | case2 control multiline backslash _ h =>
    have hplain : ((∀ c ∈ text, isControl c = false) ∧ apostrophe ∉ text) ∧ '\n' ∉ text := by
      simpa [control, multiline] using h
    obtain ⟨⟨hcontrol, hnone⟩, hbreak⟩ := hplain
    have hhead : text.head? ≠ some apostrophe := fun h => hnone (List.mem_of_head? h)
    have hread := readLiteral_append (fun c hc => ⟨isPrintable_of_not_control (hcontrol c hc)
      (ne_of_mem_of_not_mem hc hbreak), ne_of_mem_of_not_mem hc hnone⟩) rest
    rw [List.cons_append, List.cons_append, List.append_assoc, List.singleton_append,
      readQuoted?_line (.inr rfl) hhead hmark]
    exact hread
  | case3 control multiline backslash _ _ h =>
    have hplain : ((∀ c ∈ text, isControl c = false) ∧ '\\' ∉ text) ∧
        hasThree quote text = false := by
      simpa [control, backslash] using h
    obtain ⟨⟨hcontrol, hslash⟩, hthree⟩ := hplain
    exact readQuoted?_betweenMarks (.inl rfl) (.inr ⟨rfl, hcontrol⟩)
      (readLines_append hthree hcontrol (fun h => absurd h hslash) hquote)
  | case4 control multiline backslash _ _ _ h =>
    have hplain : (∀ c ∈ text, isControl c = false) ∧ hasThree apostrophe text = false := by
      simpa [control] using h
    exact readQuoted?_betweenMarks (.inr rfl) (.inr ⟨rfl, hplain.1⟩)
      (readLines_append hplain.2 hplain.1 (fun _ => rfl) hmark)
  | case5 control multiline backslash _ _ _ _ h =>
    exact readQuoted?_betweenMarks (.inl rfl) (.inl (by simpa [multiline] using h))
      (readLines_escapeLines (Nat.zero_le 2) text hquote)
  | case6 => simpa using readQuoted?_escapes text hquote

end TypeCoupling.Toml
