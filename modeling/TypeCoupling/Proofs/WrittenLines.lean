import Mathlib
import TypeCoupling.Toml.Reader
import TypeCoupling.Proofs.QuotedText

/-!
Documents that are written line by line read back.

A line holds a bare key and a value that ends with the line. Decimal digits, truth values and arrays
of quoted texts are such values. Lines with different keys add their values to the root table in
turn, so a document of them says the value of each key.
-/

namespace TypeCoupling.Toml

/-! ### Numbers -/

lemma digit?_of_isDigit {c : Char} (h : c.isDigit = true) :
    digit? 10 c = some (c.toNat - '0'.toNat) := by
  have hlt : c.toNat - '0'.toNat < 10 := by
    have hrange := Char.isDigit_iff_toNat.mp h
    have hspan : '9'.toNat < '0'.toNat + 10 := by decide
    omega
  rw [digit?, hexDigit?, if_pos h, Option.bind_some, if_pos hlt]

/-- Digits in a row stand for their number, after the digits of `n`. -/
lemma readDigits_eq_some {s : List Char} (hne : s ≠ []) (hs : ∀ c ∈ s, c.isDigit = true) (n : Nat) :
    readDigits 10 n s = some (Nat.ofDigitChars 10 s n) := by
  induction s generalizing n with
  | nil => exact absurd rfl hne
  | cons c s ih =>
    obtain ⟨hc, hrest⟩ := List.forall_mem_cons.mp hs
    rcases s with _ | ⟨d, s⟩
    · simp [readDigits, digit?_of_isDigit hc, Nat.ofDigitChars_cons, Nat.mul_comm]
    · have hd : d ≠ '_' := ne_of_test (hrest d List.mem_cons_self) (by decide)
      have hstep : readDigits 10 n (c :: d :: s)
          = (digit? 10 c).bind fun x => readDigits 10 (n * 10 + x) (d :: s) := by
        rw [readDigits]
        · exact List.cons_ne_nil d s
        · rintro _ ⟨⟩
          exact hd rfl
      rw [hstep, digit?_of_isDigit hc, Option.bind_some, ih (List.cons_ne_nil d s) hrest,
        Nat.ofDigitChars_cons (c := c), Nat.mul_comm n]

/-- A number has no zeros in front. -/
lemma head?_toDigits {n : Nat} (hn : 0 < n) : (Nat.toDigits 10 n).head? ≠ some '0' := by
  induction n using Nat.strong_induction_on with
  | _ n ih =>
    rcases Nat.lt_or_ge n 10 with hlt | hge
    · have hdigit : ∀ d < 10, 0 < d → d.digitChar ≠ '0' := by decide
      rw [Nat.toDigits_of_lt_base hlt]
      simpa using hdigit n hlt hn
    · rw [Nat.toDigits_of_base_le (by decide) hge,
        List.head?_append_of_ne_nil _ Nat.toDigits_ne_nil]
      exact ih (n / 10) (by omega) (by omega)

lemma decimal?_toDigits (n : Nat) : decimal? (Nat.toDigits 10 n) = some n := by
  rcases Nat.eq_zero_or_pos n with rfl | hn
  · rw [Nat.toDigits_zero, decimal?]
  · have hhead := head?_toDigits hn
    have hread := readDigits_eq_some (Nat.toDigits_ne_nil (b := 10) (n := n))
      (fun c => Nat.isDigit_of_mem_toDigits (by decide) (by decide)) 0
    rw [Nat.ofDigitChars_ten_toDigits] at hread
    generalize Nat.toDigits 10 n = s at hhead hread
    fun_cases decimal? s with
    | case1 | case2 => simp at hhead
    | case3 => exact hread

lemma readInteger_toDigits (n : Nat) : readInteger (Nat.toDigits 10 n) = some (n : Int) := by
  have hdigits : ∀ c ∈ Nat.toDigits 10 n, c.isDigit = true :=
    fun c => Nat.isDigit_of_mem_toDigits (by decide) (by decide)
  have hread := decimal?_toDigits n
  generalize Nat.toDigits 10 n = s at hdigits hread
  have hsign : readSign s = (false, s) := by
    fun_cases readSign s with
    | case1 => exact absurd (hdigits '+' List.mem_cons_self) (by decide)
    | case2 => exact absurd (hdigits '-' List.mem_cons_self) (by decide)
    | case3 => rfl
  fun_cases readInteger s with
  | case1 => exact absurd (hdigits 'x' (by simp)) (by decide)
  | case2 => exact absurd (hdigits 'o' (by simp)) (by decide)
  | case3 => exact absurd (hdigits 'b' (by simp)) (by decide)
  | case4 _ negative rest _ _ _ hsplit =>
    obtain ⟨rfl, rfl⟩ := Prod.mk.inj (hsign.symm.trans hsplit)
    simp [hread]

/-- **Numbers read back** up to the largest. -/
lemma integer?_toDigits {n : Nat} (hn : n ≤ maxInteger) :
    integer? (Nat.toDigits 10 n) = some (n : Int) := by
  have hbounds : (- (maxInteger : Int) - 1 ≤ n && (n : Int) ≤ maxInteger) = true := by
    simp only [Bool.and_eq_true, decide_eq_true_eq]
    omega
  rw [integer?, readInteger_toDigits, Option.bind_some, if_pos hbounds]

/-! ### Values -/

/-- Words and bare keys end at the first character that does not belong to them. -/
lemma span_append {p : Char → Bool} {word : List Char} (hword : ∀ c ∈ word, p c = true) {c : Char}
    (hc : p c = false) (s : List Char) :
    (word ++ c :: s).takeWhile p = word ∧ (word ++ c :: s).dropWhile p = c :: s := by
  have hc : ¬ p c = true := by rw [hc]; decide
  constructor
  · rw [List.takeWhile_append_of_pos hword, List.takeWhile_cons_of_neg hc, List.append_nil]
  · rw [List.dropWhile_append_of_pos hword, List.dropWhile_cons_of_neg hc]

/-- What a value is written as, up to the end of its line. -/
def Writes (body : List Char) (v : Value) : Prop :=
  ∀ rest, readValue? maxDepth (body ++ '\n' :: rest) = some (v, '\n' :: rest)

/-- A word reads as what it says. -/
lemma readValue?_word {word : List Char} (hne : word ≠ []) (hword : ∀ c ∈ word, isWordChar c = true)
    (depth : Nat) (rest : List Char) :
    readValue? depth (word ++ '\n' :: rest) = (ofWord? word).map (·, '\n' :: rest) := by
  obtain ⟨c, s, rfl⟩ := List.exists_cons_of_ne_nil hne
  have hc : ∀ d, isWordChar d = false → (c == d) = false :=
    fun d hd => beq_false_of_ne (ne_of_test (hword c List.mem_cons_self) hd)
  have hspan := span_append (c := '\n') hword (by decide) rest
  rw [List.cons_append] at hspan ⊢
  rw [readValue?.eq_def]
  simp only [hc quote (by decide), hc apostrophe (by decide), hc '[' (by decide),
    hc '\x7b' (by decide), Bool.or_self, Bool.false_eq_true, if_false, readWord?, hspan]
  rfl

lemma writes_boolean (b : Bool) : Writes (if b then "true" else "false").toList (.boolean b) := by
  cases b <;> exact fun rest => rfl

lemma writes_integer {n : Nat} (hn : n ≤ maxInteger) :
    Writes (Nat.toDigits 10 n) (.integer n) := by
  intro rest
  have hdigits : ∀ c ∈ Nat.toDigits 10 n, c.isDigit = true :=
    fun c => Nat.isDigit_of_mem_toDigits (by decide) (by decide)
  have hword : ∀ c ∈ Nat.toDigits 10 n, isWordChar c = true := by
    intro c hc
    simp [isWordChar, Char.isAlphanum, hdigits c hc]
  have hne : ∀ c s, c.isDigit = false → (Nat.toDigits 10 n == c :: s) = false := by
    intro c s hc
    refine beq_false_of_ne fun h => ?_
    rw [hdigits c (h ▸ List.mem_cons_self)] at hc
    cases hc
  rw [readValue?_word Nat.toDigits_ne_nil hword, ofWord?, hne 't' _ (by decide),
    hne 'f' _ (by decide), integer?_toDigits hn]
  rfl

/-! ### Arrays of texts -/

lemma exists_writeQuoted_cons (text : List Char) :
    ∃ mark s, (mark = quote ∨ mark = apostrophe) ∧ writeQuoted text = mark :: s := by
  fun_cases writeQuoted text with
  | case1 | case3 | case5 | case6 => exact ⟨quote, _, .inl rfl, rfl⟩
  | case2 | case4 => exact ⟨apostrophe, _, .inr rfl, rfl⟩

lemma readValue?_writeQuoted (depth : Nat) (text : List Char) {rest : List Char}
    (hquote : rest.head? ≠ some quote) (hmark : rest.head? ≠ some apostrophe) :
    readValue? depth (writeQuoted text ++ rest) = some (.text (String.ofList text), rest) := by
  have hread := readQuoted?_writeQuoted text hquote hmark
  obtain ⟨mark, s, hm, hcons⟩ := exists_writeQuoted_cons text
  rw [hcons, List.cons_append] at hread ⊢
  have heither : (mark == quote || mark == apostrophe) = true := by simpa using hm
  rw [readValue?.eq_def]
  simp only [heither, if_true, hread, Option.map_some]

lemma dropIdle?_writeQuoted (text rest : List Char) :
    dropIdle? false (writeQuoted text ++ rest) = some (writeQuoted text ++ rest) := by
  obtain ⟨mark, s, rfl | rfl, hcons⟩ := exists_writeQuoted_cons text <;> rw [hcons] <;> rfl

/-- **Step**: a text is the next item, and a comma or the closing bracket comes after it. -/
lemma readItems?_item {depth fuel : Nat} {s text rest : List Char}
    (hs : dropIdle? false s = some (writeQuoted text ++ rest))
    (hquote : rest.head? ≠ some quote) (hmark : rest.head? ≠ some apostrophe) :
    readItems? (readValue? depth) (fuel + 1) s =
      (dropIdle? false rest).bind fun
        | ',' :: s => (readItems? (readValue? depth) fuel s).map fun (vs, s) =>
            (.text (String.ofList text) :: vs, s)
        | ']' :: s => some ([.text (String.ofList text)], s)
        | _ => none := by
  have hread := readValue?_writeQuoted depth text hquote hmark
  obtain ⟨mark, s', hm, hcons⟩ := exists_writeQuoted_cons text
  have hopen : mark ≠ ']' := by rcases hm with rfl | rfl <;> decide
  rw [readItems?, hs]
  rw [hcons, List.cons_append] at hread ⊢
  simp only [Option.bind_eq_bind, Option.bind_some]
  split
  · exact absurd (List.cons.inj ‹_›).1 hopen
  · rw [hread]
    rfl

/-- An item on a line of its own. -/
def itemLine (text : List Char) : List Char :=
  [' ', ' ', ' ', ' '] ++ writeQuoted text ++ [',', '\n']

/-- **Run**: the items of an array, each on a line of its own. -/
lemma readItems?_lines (depth : Nat) (texts : List (List Char)) {fuel : Nat}
    (hfuel : texts.length < fuel) (rest : List Char) :
    readItems? (readValue? depth) fuel ('\n' :: (texts.flatMap itemLine ++ ']' :: rest))
      = some (texts.map fun t => .text (String.ofList t), rest) := by
  induction texts generalizing fuel with
  | nil =>
    obtain ⟨fuel, rfl⟩ := Nat.exists_eq_add_one_of_ne_zero (Nat.ne_of_gt hfuel)
    rfl
  | cons text texts ih =>
    obtain ⟨fuel, rfl⟩ := Nat.exists_eq_add_one_of_ne_zero (Nat.ne_zero_of_lt hfuel)
    have hidle : dropIdle? false ('\n' :: ((text :: texts).flatMap itemLine ++ ']' :: rest))
        = some (writeQuoted text ++ ',' :: '\n' :: (texts.flatMap itemLine ++ ']' :: rest)) := by
      rw [← dropIdle?_writeQuoted]
      simp [itemLine, dropIdle?, isSpace]
    rw [readItems?_item hidle (by simp [quote]) (by simp [apostrophe])]
    -- after its comma an item leaves the line break that the rest starts with
    have hread := ih (Nat.lt_of_succ_lt_succ hfuel)
    simp [dropIdle?, isSpace, hread]

lemma length_le_length_flatMap {α β : Type} {f : α → List β} (hf : ∀ a, f a ≠ []) (l : List α) :
    l.length ≤ (l.flatMap f).length := by
  rw [List.length_flatMap, ← List.length_map (f := fun a => (f a).length)]
  refine List.length_le_sum_of_one_le _ fun n hn => ?_
  obtain ⟨a, -, rfl⟩ := List.mem_map.mp hn
  exact List.length_pos_iff.mpr (hf a)

lemma readValue?_bracket (depth : Nat) (s : List Char) :
    readValue? (depth + 1) ('[' :: s)
      = (readItems? (readValue? depth) (s.length + 1) s).map fun (vs, s) => (.array vs, s) := by
  rw [readValue?.eq_def]
  rfl

lemma writes_no_items : Writes ['[', ']'] (.array []) := by
  intro rest
  rw [maxDepth, List.cons_append, readValue?_bracket]
  rfl

lemma writes_item (text : List Char) :
    Writes ('[' :: (writeQuoted text ++ [']'])) (.array [.text (String.ofList text)]) := by
  intro rest
  rw [maxDepth, List.cons_append, readValue?_bracket, List.append_assoc,
    readItems?_item (dropIdle?_writeQuoted text _) (by simp [quote]) (by simp [apostrophe])]
  rfl

lemma writes_items (texts : List (List Char)) :
    Writes ('[' :: '\n' :: (texts.flatMap itemLine ++ [']']))
      (.array (texts.map fun t => .text (String.ofList t))) := by
  intro rest
  have hlength := length_le_length_flatMap (f := itemLine) (fun t => by simp [itemLine]) texts
  have hfuel : texts.length
      < ('\n' :: (texts.flatMap itemLine ++ ']' :: '\n' :: rest)).length + 1 := by
    simp only [List.length_cons, List.length_append]
    omega
  rw [maxDepth, List.cons_append, readValue?_bracket, List.cons_append, List.append_assoc,
    List.singleton_append, readItems?_lines _ texts hfuel]
  rfl

/-! ### Lines -/

/-- A key that needs no quotes. -/
def isBare (name : List Char) : Bool := !name.isEmpty && name.all isKeyChar

lemma isBare_iff {name : List Char} :
    isBare name = true ↔ name ≠ [] ∧ ∀ c ∈ name, isKeyChar c = true := by
  simp [isBare]

/-- A bare key with a value. -/
structure Line where
  name : String
  body : List Char
  value : Value
  bare : isBare name.toList = true
  writes : Writes body value

namespace Line

/-- The line as it is written. -/
def text (l : Line) : List Char := l.name.toList ++ ' ' :: '=' :: ' ' :: (l.body ++ ['\n'])

lemma exists_text_cons (l : Line) : ∃ c s, isKeyChar c = true ∧ l.text = c :: s := by
  obtain ⟨hne, hbare⟩ := isBare_iff.mp l.bare
  obtain ⟨c, s, hname⟩ := List.exists_cons_of_ne_nil hne
  exact ⟨c, _, hbare c (hname ▸ List.mem_cons_self), by rw [text, hname, List.cons_append]⟩

lemma text_ne_nil (l : Line) : l.text ≠ [] := by simp [text]

/-- What the line says. -/
def entry (l : Line) : Location × Entry := ([.key l.name], .value l.value)

end Line

lemma dropSpace_of_isKeyChar {c : Char} (hc : isKeyChar c = true) (s : List Char) :
    dropSpace (c :: s) = c :: s := by
  refine List.dropWhile_cons_of_neg ?_
  simp [isSpace, ne_of_test hc (d := ' ') (by decide), ne_of_test hc (d := '\t') (by decide)]

lemma readKey?_bare {name : List Char} (h : isBare name = true) (fuel : Nat) (s : List Char) :
    readKey? (fuel + 1) (name ++ ' ' :: '=' :: s) = some ([String.ofList name], '=' :: s) := by
  obtain ⟨hne, hbare⟩ := isBare_iff.mp h
  have hstart : dropSpace (name ++ ' ' :: '=' :: s) = name ++ ' ' :: '=' :: s := by
    obtain ⟨c, name, rfl⟩ := List.exists_cons_of_ne_nil hne
    exact dropSpace_of_isKeyChar (hbare c List.mem_cons_self) _
  have hspan := span_append (c := ' ') hbare (by decide) ('=' :: s)
  have hname : readName? (name ++ ' ' :: '=' :: s)
      = some (String.ofList name, ' ' :: '=' :: s) := by
    simp [readName?, hspan, hne]
  rw [readKey?, hstart, hname]
  rfl

/-- Values do not start with blanks. -/
lemma dropSpace_of_readValue? {depth : Nat} {s : List Char} {r : Value × List Char}
    (h : readValue? depth s = some r) : dropSpace s = s := by
  rcases s with _ | ⟨c, s⟩
  · rfl
  · refine List.dropWhile_cons_of_neg fun hc => ?_
    have hblank : c = ' ' ∨ c = '\t' := by simpa [isSpace] using hc
    have hnone : readValue? depth (c :: s) = none := by
      rcases hblank with rfl | rfl <;> (rw [readValue?.eq_def]; rfl)
    rw [hnone] at h
    cases h

lemma insert?_root {d : Document} {name : String} (hnew : d.entry? name = none) (v : Value) :
    d.insert? [] [name] v = some (([.key name], .value v) :: d) := by
  have hget : d.get? [.key name] = none := hnew
  simp [Document.insert?, Document.descend?, hget, Document.put]

@[simp] lemma entry?_nil (name : String) : Document.entry? [] name = none := rfl

lemma entry?_entry_cons (l : Line) (d : Document) (name : String) :
    Document.entry? (l.entry :: d) name
      = if name = l.name then some (.value l.value) else d.entry? name := by
  rw [Document.entry?, Document.get?, Line.entry, List.lookup_cons]
  by_cases h : name = l.name
  · rw [h, beq_self_eq_true, if_pos rfl]
  · have hne : ([Step.key name] == [Step.key l.name]) = false := beq_false_of_ne (by simpa using h)
    rw [hne, if_neg h]
    rfl

/-- A line that starts with a key is a pair. -/
lemma readLine?_of_isKeyChar (p : Progress) {c : Char} (hc : isKeyChar c = true) (s : List Char) :
    p.readLine? (c :: s)
      = (p.readPair? (c :: s)).bind fun (p, s) => (afterLine? s).map (p, ·) := by
  have hne : ∀ {d}, isKeyChar d = false → c ≠ d := ne_of_test hc
  have hbreak : atBreak (c :: s) = false := by
    rw [atBreak.eq_def]
    split
    · next h => exact absurd (List.cons.inj h).1 (hne (by decide))
    · next h => exact absurd (List.cons.inj h).1 (hne (by decide))
    · rfl
  rw [Progress.readLine?, dropSpace_of_isKeyChar hc]
  split
  · next h => exact absurd (List.cons.inj h).1 (hne (by decide))
  · simp [hbreak, hne (d := '#') (by decide)]

/-- **Step**: a line with a new key adds its value. -/
lemma readLine?_line (l : Line) {d : Document} (hnew : d.entry? l.name = none) (rest : List Char) :
    Progress.readLine? ⟨d, []⟩ (l.text ++ rest) = some (⟨l.entry :: d, []⟩, rest) := by
  have htext : l.text ++ rest = l.name.toList ++ ' ' :: '=' :: ' ' :: (l.body ++ '\n' :: rest) := by
    simp [Line.text]
  have hvalue := l.writes rest
  have hspace : dropSpace (' ' :: (l.body ++ '\n' :: rest)) = l.body ++ '\n' :: rest :=
    dropSpace_of_readValue? hvalue
  have hpair : Progress.readPair? ⟨d, []⟩ (l.text ++ rest)
      = some (⟨l.entry :: d, []⟩, '\n' :: rest) := by
    have hkey : readKey? maxDepth (l.text ++ rest)
        = some ([l.name], '=' :: ' ' :: (l.body ++ '\n' :: rest)) := by
      rw [htext, maxDepth, readKey?_bare l.bare, String.ofList_toList]
    simp only [Progress.readPair?, hkey, Option.bind_eq_bind, Option.bind_some, hspace, hvalue,
      insert?_root hnew]
    rfl
  obtain ⟨c, s, hc, hcons⟩ := l.exists_text_cons
  rw [hcons, List.cons_append] at hpair ⊢
  rw [readLine?_of_isKeyChar _ hc, hpair]
  rfl

/-- **Run**: lines with different keys add their values in turn. -/
lemma readLines?_lines {lines : List Line} (hnodup : (lines.map Line.name).Nodup) {d : Document}
    (hnew : ∀ l ∈ lines, d.entry? l.name = none) {fuel : Nat} (hfuel : lines.length ≤ fuel) :
    Progress.readLines? fuel ⟨d, []⟩ (lines.flatMap Line.text)
      = some ((lines.map Line.entry).reverse ++ d) := by
  induction lines generalizing d fuel with
  | nil => cases fuel <;> rfl
  | cons l lines ih =>
    obtain ⟨fuel, rfl⟩ := Nat.exists_eq_add_one_of_ne_zero (Nat.ne_zero_of_lt hfuel)
    obtain ⟨hfresh, hnodup⟩ := List.nodup_cons.mp hnodup
    obtain ⟨hl, hlines⟩ := List.forall_mem_cons.mp hnew
    have hnew' : ∀ k ∈ lines, Document.entry? (l.entry :: d) k.name = none := by
      intro k hk
      have hne : k.name ≠ l.name := fun h => hfresh (h ▸ List.mem_map_of_mem hk)
      rw [entry?_entry_cons, if_neg hne, hlines k hk]
    have hread := readLine?_line l hl (lines.flatMap Line.text)
    rw [List.flatMap_cons, Progress.readLines?, hread]
    · simp [ih hnodup hnew' (Nat.le_of_succ_le_succ hfuel)]
    · simp [l.text_ne_nil]

/-- **A document of lines reads back.** -/
lemma parse?_lines {lines : List Line} (hnodup : (lines.map Line.name).Nodup) {text : String}
    (htext : text.toList = lines.flatMap Line.text) :
    parse? text = some (lines.map Line.entry).reverse := by
  have hmark : (text.toList.head? == some '\ufeff') = false := by
    rw [htext]
    rcases lines with _ | ⟨l, lines⟩
    · rfl
    · obtain ⟨c, s, hc, hcons⟩ := l.exists_text_cons
      simp [hcons, ne_of_test hc (d := '\ufeff') (by decide)]
  have hlength := length_le_length_flatMap Line.text_ne_nil lines
  rw [parse?, hmark, if_neg Bool.false_ne_true, htext]
  have hread := readLines?_lines hnodup (fun l _ => entry?_nil l.name) hlength
  rwa [List.append_nil] at hread

end TypeCoupling.Toml
