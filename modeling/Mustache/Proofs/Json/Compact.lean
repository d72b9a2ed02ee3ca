import Mathlib.Data.List.Infix
import Mathlib.Data.Nat.Digits.Defs
import Mustache.Json.Read
import Mustache.Proofs.Text.Line

/-!
A document written on one line reads back, if its numbers are those of unsigned words and it lies no
deeper than the reader goes. Each construct is read where it is due, whatever follows it. Main
statement: `parse?_compact`.
-/

namespace Mustache.Json

/-! ### Documents that read back -/

mutual

/-- How many arrays and objects lie in one another. -/
def depth : Json → Nat
  | array items => depthOfItems items + 1
  | object entries => depthOfEntries entries + 1
  | _ => 0

def depthOfItems : List Json → Nat
  | [] => 0
  | j :: js => max (depth j) (depthOfItems js)

def depthOfEntries : List (String × Json) → Nat
  | [] => 0
  | (_, j) :: es => max (depth j) (depthOfEntries es)

end

mutual

/-- The numbers are whole, not negative and below the bound, and nothing is illegible. -/
def isPlain : Json → Bool
  | int i => 0 ≤ i && i.toNat < digitBound
  | float _ | illegible => false
  | array items => arePlain items
  | object entries => havePlain entries
  | _ => true

def arePlain : List Json → Bool
  | [] => true
  | j :: js => isPlain j && arePlain js

def havePlain : List (String × Json) → Bool
  | [] => true
  | (_, j) :: es => isPlain j && havePlain es

end

/-! ### Strings -/

theorem hex?_hexDigit : ∀ n < 32,
    hex? ['0', '0', hexDigit (n / 16), hexDigit (n % 16)] = some n := by
  decide

theorem joinPieces?_char (c : Char) (ps : List Piece) :
    joinPieces? (.char c :: ps) = (joinPieces? ps).map (c :: ·) := by
  rw [joinPieces?]

/-- A unit below those that come in pairs is a character of its own. -/
theorem joinPieces?_unit {n : Nat} (hn : n < 32) (ps : List Piece) :
    joinPieces? (.unit n :: ps) = (joinPieces? ps).map (Char.ofNat n :: ·) := by
  have hhigh : isHigh n = false := by simp [isHigh]; omega
  have hlow : isLow n = false := by simp [isLow]; omega
  rcases ps with _ | ⟨_ | _, ps⟩ <;> simp [joinPieces?, hhigh, hlow]

theorem readPieces_escaped {c e : Char} (hu : e ≠ 'u') (he : escaped? e = some c)
    (cs : List Char) :
    readPieces ('\\' :: e :: cs) = (readPieces cs).map fun r => (.char c :: r.1, r.2) := by
  rw [readPieces.eq_def]
  split <;> grind

theorem readPieces_unit {a b c d : Char} {n : Nat} (hn : hex? [a, b, c, d] = some n)
    (cs : List Char) : readPieces ('\\' :: 'u' :: a :: b :: c :: d :: cs) =
      (readPieces cs).map fun r => (.unit n :: r.1, r.2) := by
  simp [readPieces, hn]

theorem readPieces_char {c : Char} (hquote : c ≠ '"') (hslash : c ≠ '\\') (hc : ¬ c.toNat < 32)
    (cs : List Char) :
    readPieces (c :: cs) = (readPieces cs).map fun r => (.char c :: r.1, r.2) := by
  rw [readPieces.eq_def]
  split <;> simp_all

/-- A character between the quotes is one piece, which stands for the character. -/
theorem exists_piece (c : Char) : ∃ p,
    (∀ ps, joinPieces? (p :: ps) = (joinPieces? ps).map (c :: ·)) ∧
      ∀ cs, readPieces (quoteChar c ++ cs) = (readPieces cs).map fun r => (p :: r.1, r.2) := by
  have hnamed : ∀ e, e ≠ 'u' → escaped? e = some c → ∃ p,
      (∀ ps, joinPieces? (p :: ps) = (joinPieces? ps).map (c :: ·)) ∧
        ∀ cs, readPieces (['\\', e] ++ cs) = (readPieces cs).map fun r => (p :: r.1, r.2) :=
    fun e hu he => ⟨.char c, joinPieces?_char c, fun cs => readPieces_escaped hu he cs⟩
  have hnumber : ∀ n, c.toNat = n → c = Char.ofNat n := fun n hn => by rw [← hn, Char.ofNat_toNat]
  unfold quoteChar
  split
  · exact hnamed '"' (by decide) (by subst c; rfl)
  split
  · exact hnamed '\\' (by decide) (by subst c; rfl)
  split
  · exact hnamed 'n' (by decide) (by subst c; rfl)
  split
  · exact hnamed 'r' (by decide) (by subst c; rfl)
  split
  · exact hnamed 't' (by decide) (by subst c; rfl)
  split
  · exact hnamed 'b' (by decide) (by rw [hnumber 8 ‹_›]; rfl)
  split
  · exact hnamed 'f' (by decide) (by rw [hnumber 12 ‹_›]; rfl)
  split
  · rename_i hcontrol
    refine ⟨.unit c.toNat, fun ps => ?_, fun cs => readPieces_unit (hex?_hexDigit _ hcontrol) cs⟩
    rw [joinPieces?_unit hcontrol, Char.ofNat_toNat]
  · exact ⟨.char c, joinPieces?_char c, fun cs => readPieces_char ‹_› ‹_› ‹_› cs⟩

theorem readString_quoted (cs rest : List Char) :
    ∃ ps, joinPieces? ps = some cs ∧
      readPieces (cs.flatMap quoteChar ++ '"' :: rest) = some (ps, rest) := by
  induction cs with
  | nil => exact ⟨[], rfl, by simp [readPieces]⟩
  | cons c cs ih =>
    obtain ⟨ps, hjoin, hread⟩ := ih
    obtain ⟨p, hp, hpiece⟩ := exists_piece c
    refine ⟨p :: ps, by rw [hp, hjoin]; rfl, ?_⟩
    rw [List.flatMap_cons, List.append_assoc, hpiece, hread]
    rfl

/-! ### Lexemes -/

/-- No number or name goes on into the text. -/
def Ended (cs : List Char) : Prop := ∀ c ∈ cs.head?, ¬ isNumeric c ∧ ¬ isLetter c

theorem lexeme?_quote (s : String) (rest : List Char) :
    lexeme? '"' (s.toList.flatMap quoteChar ++ '"' :: rest) = some (.string (some s), rest) := by
  obtain ⟨ps, hjoin, hread⟩ := readString_quoted s.toList rest
  simp [lexeme?, mark?, readString, hread, hjoin]

theorem lexeme?_name {c : Char} {cs rest : List Char} {j : Json} (hc : isLetter c)
    (hnumeric : ¬ isNumeric c) (hcs : cs.all isLetter) (hname : name? (c :: cs) = some j)
    (hrest : Ended rest) : lexeme? c (cs ++ rest) = some (.scalar j, rest) := by
  obtain ⟨htake, hdrop⟩ := Text.takeWhile_behind (List.all_eq_true.mp hcs) fun d hd => (hrest d hd).2
  have hmark : mark? c = none := by
    unfold mark?
    split <;> first | rfl | exact absurd hc (by decide)
  have hquote : c ≠ '"' := by rintro rfl; exact absurd hc (by decide)
  simp [lexeme?, hmark, hquote, hnumeric, htake, hdrop, hname]

theorem lexeme?_number {c : Char} {cs rest : List Char} {j : Json} (hc : Decimal.isDigit c)
    (hcs : ∀ d ∈ cs, isNumeric d) (hnumber : readNumber? (c :: cs) = some j)
    (hrest : Ended rest) : lexeme? c (cs ++ rest) = some (.scalar j, rest) := by
  obtain ⟨htake, hdrop⟩ := Text.takeWhile_behind hcs fun d hd => (hrest d hd).1
  have hmark : mark? c = none := by
    unfold mark?
    split <;> first | rfl | exact absurd hc (by decide)
  have hquote : c ≠ '"' := by rintro rfl; exact absurd hc (by decide)
  have hnumeric : isNumeric c := by simp [isNumeric, hc]
  simp [lexeme?, hmark, hquote, hnumeric, htake, hdrop, hnumber]

/-! ### Numbers -/

section

variable {n : Nat}

theorem isDigit_of_mem_toDigits {c : Char} (hc : c ∈ Nat.toDigits 10 n) : Decimal.isDigit c := by
  have h := Nat.isDigit_of_mem_toDigits (by omega) (le_refl 10) hc
  simp only [Char.isDigit, Bool.and_eq_true, decide_eq_true_eq] at h
  simpa [Decimal.isDigit, Char.le_def] using h

/-- No zero stands in front of a number. -/
theorem head?_toDigits (hn : 0 < n) : (Nat.toDigits 10 n).head? ≠ some '0' := by
  induction n using Nat.strongRecOn with
  | _ n ih =>
    by_cases hlt : n < 10
    · have hdigit : ∀ d < 10, 0 < d → [d.digitChar].head? ≠ some '0' := by decide
      rw [Nat.toDigits_of_lt_base hlt]
      exact hdigit n hlt hn
    · rw [Nat.toDigits_of_base_le (by omega) (by omega),
        List.head?_append_of_ne_nil _ Nat.toDigits_ne_nil]
      exact ih (n / 10) (by omega) (by omega)

theorem readLiteral?_toDigits :
    Decimal.readLiteral? (Nat.toDigits 10 n) = some ⟨false, Nat.toDigits 10 n, [], 0⟩ := by
  have hall : ∀ c ∈ Nat.toDigits 10 n, Decimal.isDigit c := fun c => isDigit_of_mem_toDigits
  have hne : Nat.toDigits 10 n ≠ [] := Nat.toDigits_ne_nil
  generalize Nat.toDigits 10 n = ds at hall hne
  have hsign : Decimal.readSign ds = (false, ds) := by
    unfold Decimal.readSign
    split
    · exact absurd (hall '-' List.mem_cons_self) (by decide)
    · exact absurd (hall '+' List.mem_cons_self) (by decide)
    · rfl
  obtain ⟨htake, hdrop⟩ := Text.takeWhile_behind hall fun c (hc : c ∈ [].head?) => nomatch hc
  rw [List.append_nil] at htake hdrop
  simp [Decimal.readLiteral?, hsign, htake, hdrop, hne, Decimal.readExponent?]

theorem readNumber?_toDigits (hn : n < digitBound) :
    readNumber? (Nat.toDigits 10 n) = some (int n) := by
  have hnot : ∀ c, ¬ Decimal.isDigit c → c ∉ Nat.toDigits 10 n :=
    fun c hc hmem => hc (isDigit_of_mem_toDigits hmem)
  have hplus : (Nat.toDigits 10 n).head? ≠ some '+' := fun h =>
    hnot '+' (by decide) (List.mem_of_mem_head? h)
  have hzero : (Nat.toDigits 10 n).head? = some '0' → (Nat.toDigits 10 n).length = 1 := by
    intro h
    obtain rfl | hpos := Nat.eq_zero_or_pos n
    · rfl
    · exact absurd h (head?_toDigits hpos)
  have hvalue : Decimal.ofDigits (Nat.toDigits 10 n) = n := Nat.ofDigitChars_ten_toDigits
  have hne : Nat.toDigits 10 n ≠ [] := Nat.toDigits_ne_nil
  have hpoint := hnot '.' (by decide)
  have he := hnot 'e' (by decide)
  have hE := hnot 'E' (by decide)
  have hfront : (Nat.toDigits 10 n).head? ≠ some '0' ∨ (Nat.toDigits 10 n).length = 1 := by
    tauto
  simp [readNumber?, readLiteral?_toDigits, hplus, hne, hpoint, he, hE, hfront, ofInteger, hvalue,
    hn]

end

/-! ### Values where they are due -/

/-- The machine at the end of a text. -/
def feed? (m : Machine) (cs : List Char) : Option Machine := (lexemes? cs).bind (·.foldlM step? m)

theorem feed?_lexeme {m m' : Machine} {c : Char} {cs rest : List Char} {l : Lexeme}
    (hblank : isBlank c = false) (hlexeme : lexeme? c cs = some (l, rest))
    (hstep : step? m l = some m') : feed? m (c :: cs) = feed? m' rest := by
  unfold feed?
  rw [lexemes?]
  simp only [hblank, Bool.false_eq_true, if_false]
  split
  · rename_i l' rest' h
    rw [hlexeme] at h
    cases h
    cases lexemes? rest <;> simp [List.foldlM_cons, hstep]
  · rename_i h
    rw [hlexeme] at h
    cases h

theorem feed?_mark {m m' : Machine} {c : Char} {rest : List Char} {l : Lexeme}
    (hblank : isBlank c = false) (hmark : mark? c = some l) (hstep : step? m l = some m') :
    feed? m (c :: rest) = feed? m' rest :=
  feed?_lexeme hblank (by simp [lexeme?, hmark]) hstep

theorem commas_cons (t : List Char) (ts : List (List Char)) :
    commas (t :: ts) = t ++ ts.flatMap (',' :: ·) := by
  induction ts generalizing t with
  | nil => simp [commas]
  | cons u us ih =>
    rw [commas, ih, List.flatMap_cons]
    · rfl
    · exact List.cons_ne_nil u us

theorem step?_value {stack : List Frame} {e : Expect} {l : Lexeme} {m : Machine}
    (he : e = .value ∨ e = .valueOrEnd) (h : startValue? stack l = some m) :
    step? (.reading stack e) l = some m := by
  obtain rfl | rfl := he
  · exact h
  · have hclose : close? stack l = none := by
      unfold close?
      split <;> first | rfl | cases h
    simp [step?, hclose, h]

theorem ended_cons {c : Char} (hc : ¬ isNumeric c ∧ ¬ isLetter c) (cs : List Char) :
    Ended (c :: cs) := fun _ hd => Option.some.inj hd ▸ hc

theorem ended_commas (ts : List (List Char)) {c : Char} (hc : c = ']' ∨ c = '}')
    (rest : List Char) : Ended (ts.flatMap (',' :: ·) ++ c :: rest) := by
  cases ts with
  | nil => obtain rfl | rfl := hc <;> exact ended_cons (by decide) rest
  | cons t ts => exact ended_cons (by decide) _

theorem feed?_int {n : Nat} {m m' : Machine} {rest : List Char} (hn : n < digitBound)
    (hrest : Ended rest) (hstep : step? m (.scalar (int n)) = some m') :
    feed? m (compactChars (int n) ++ rest) = feed? m' rest := by
  have hchars : compactChars (int n) = Nat.toDigits 10 n := by
    rw [compactChars]
    exact (congrArg String.toList Nat.toString_eq_ofList_toDigits).trans String.toList_ofList
  have hdigit : ∀ c ∈ Nat.toDigits 10 n, Decimal.isDigit c := fun c => isDigit_of_mem_toDigits
  have hnumber := readNumber?_toDigits hn
  rw [hchars]
  cases hdigits : Nat.toDigits 10 n with
  | nil => exact absurd hdigits Nat.toDigits_ne_nil
  | cons c cs =>
    rw [hdigits] at hdigit hnumber
    have hc := hdigit c List.mem_cons_self
    have hblank : isBlank c = false := by
      refine Bool.eq_false_iff.mpr fun hblank => ?_
      simp only [isBlank, Bool.or_eq_true, beq_iff_eq, or_assoc] at hblank
      obtain rfl | rfl | rfl | rfl := hblank <;> exact absurd hc (by decide)
    have hnumeric : ∀ d ∈ cs, isNumeric d := fun d hd => by
      simp [isNumeric, hdigit d (List.mem_cons_of_mem c hd)]
    exact feed?_lexeme hblank (lexeme?_number hc hnumeric hnumber hrest) hstep

/-- The key of an entry and its colon, behind which the value is due. -/
theorem feed?_key {entries : List (String × Json)} {key k : String} {stack : List Frame}
    {e : Expect} {rest : List Char} (he : e = .key ∨ e = .keyOrEnd) :
    feed? (.reading (.object entries key :: stack) e) (quote k ++ ':' :: rest) =
      feed? (.reading (.object entries k :: stack) .value) rest := by
  have hkey : step? (.reading (.object entries key :: stack) e) (.string (some k)) =
      some (.reading (.object entries k :: stack) .colon) := by
    obtain rfl | rfl := he <;> rfl
  rw [quote, List.append_assoc]
  exact (feed?_lexeme (by decide) (lexeme?_quote k _) hkey).trans (feed?_mark (by decide) rfl rfl)

mutual

/-- **A document is read where a value is due.** -/
theorem feed?_compact (j : Json) (stack : List Frame) {e : Expect} {rest : List Char}
    (hplain : j.isPlain) (hdepth : stack.length + j.depth ≤ maxDepth)
    (he : e = .value ∨ e = .valueOrEnd) (hrest : Ended rest) :
    feed? (.reading stack e) (compactChars j ++ rest) = feed? (supply j stack) rest := by
  cases j with
  | null =>
    exact feed?_lexeme (by decide) (lexeme?_name (by decide) (by decide) rfl rfl hrest)
      (step?_value he rfl)
  | bool b =>
    cases b <;>
      exact feed?_lexeme (by decide) (lexeme?_name (by decide) (by decide) rfl rfl hrest)
        (step?_value he rfl)
  | int i =>
    simp only [isPlain, Bool.and_eq_true, decide_eq_true_eq] at hplain
    rw [← Int.toNat_of_nonneg hplain.1]
    exact feed?_int hplain.2 hrest (step?_value he rfl)
  | float x => cases hplain
  | illegible => cases hplain
  | string s =>
    rw [compactChars, quote, List.append_assoc]
    exact feed?_lexeme (by decide) (lexeme?_quote s rest) (step?_value he rfl)
  | array items =>
    rw [depth] at hdepth
    rw [isPlain] at hplain
    -- the depth leaves room for one more array on the stack
    have hopen : startValue? stack .beginArray =
        some (.reading (.array [] :: stack) .valueOrEnd) := by
      rw [startValue?, openArray, if_pos (by omega)]
    rw [compactChars, List.append_assoc, List.cons_append,
      feed?_mark (by decide) rfl (step?_value he hopen)]
    cases items with
    | nil => exact feed?_mark (by decide) rfl rfl
    | cons item items =>
      rw [arePlain, Bool.and_eq_true] at hplain
      rw [depthOfItems] at hdepth
      have hbelow : (Frame.array [] :: stack).length + item.depth ≤ maxDepth := by
        rw [List.length_cons]
        omega
      rw [compactItems, commas_cons, List.append_assoc]
      exact (feed?_compact item (.array [] :: stack) hplain.1 hbelow (.inr rfl)
        (ended_commas _ (.inl rfl) _)).trans (feed?_items items [item] stack rest hplain.2 (by omega))
  | object entries =>
    rw [depth] at hdepth
    rw [isPlain] at hplain
    have hopen : startValue? stack .beginObject =
        some (.reading (.object [] "" :: stack) .keyOrEnd) := by
      rw [startValue?, openObject, if_pos (by omega)]
    rw [compactChars, List.append_assoc, List.cons_append,
      feed?_mark (by decide) rfl (step?_value he hopen)]
    cases entries with
    | nil => exact feed?_mark (by decide) rfl rfl
    | cons entry entries =>
      obtain ⟨key, j⟩ := entry
      rw [havePlain, Bool.and_eq_true] at hplain
      rw [depthOfEntries] at hdepth
      have hbelow : (Frame.object [] key :: stack).length + j.depth ≤ maxDepth := by
        rw [List.length_cons]
        omega
      rw [compactEntries, commas_cons]
      simp only [List.append_assoc, List.cons_append, List.nil_append]
      rw [feed?_key (.inr rfl), feed?_compact j _ hplain.1 hbelow (.inl rfl)
        (ended_commas _ (.inr rfl) _)]
      exact feed?_entries entries [(key, j)] key stack rest hplain.2 (by omega)

theorem feed?_items (js done : List Json) (stack : List Frame) (rest : List Char)
    (hplain : arePlain js) (hdepth : stack.length + 1 + depthOfItems js ≤ maxDepth) :
    feed? (.reading (.array done :: stack) .commaOrEnd)
        ((compactItems js).flatMap (',' :: ·) ++ ']' :: rest) =
      feed? (supply (array (done.reverse ++ js)) stack) rest := by
  cases js with
  | nil =>
    rw [List.append_nil]
    exact feed?_mark (by decide) rfl rfl
  | cons j js =>
    rw [arePlain, Bool.and_eq_true] at hplain
    rw [depthOfItems] at hdepth
    have hbelow : (Frame.array done :: stack).length + j.depth ≤ maxDepth := by
      rw [List.length_cons]
      omega
    have hrest := feed?_items js (j :: done) stack rest hplain.2 (by omega)
    rw [List.reverse_cons, List.append_assoc] at hrest
    rw [compactItems, List.flatMap_cons, List.append_assoc, List.cons_append,
      feed?_mark (by decide) rfl rfl, feed?_compact j _ hplain.1 hbelow
        (.inl rfl) (ended_commas _ (.inl rfl) _)]
    exact hrest

theorem feed?_entries (es done : List (String × Json)) (key : String) (stack : List Frame)
    (rest : List Char) (hplain : havePlain es)
    (hdepth : stack.length + 1 + depthOfEntries es ≤ maxDepth) :
    feed? (.reading (.object done key :: stack) .commaOrEnd)
        ((compactEntries es).flatMap (',' :: ·) ++ '}' :: rest) =
      feed? (supply (object (done.reverse ++ es)) stack) rest := by
  cases es with
  | nil =>
    rw [List.append_nil]
    exact feed?_mark (by decide) rfl rfl
  | cons entry es =>
    obtain ⟨k, j⟩ := entry
    rw [havePlain, Bool.and_eq_true] at hplain
    rw [depthOfEntries] at hdepth
    have hbelow : (Frame.object done k :: stack).length + j.depth ≤ maxDepth := by
      rw [List.length_cons]
      omega
    have hrest := feed?_entries es ((k, j) :: done) k stack rest hplain.2 (by omega)
    rw [List.reverse_cons, List.append_assoc] at hrest
    rw [compactEntries, List.flatMap_cons]
    simp only [List.append_assoc, List.cons_append]
    rw [feed?_mark (by decide) rfl rfl, feed?_key (.inl rfl), feed?_compact j _ hplain.1 hbelow
      (.inl rfl) (ended_commas _ (.inr rfl) _)]
    exact hrest

end

/-- **What is written on one line reads back.** -/
theorem parse?_compact {j : Json} (hplain : j.isPlain) (hdepth : j.depth ≤ maxDepth) :
    parse? j.compact = some j := by
  have hfeed : feed? (.reading [] .value) (compactChars j ++ []) = some (.done j) := by
    have hend : Ended [] := fun _ hc => nomatch hc
    rw [feed?_compact j [] hplain (by simpa using hdepth) (.inl rfl) hend]
    simp [supply, feed?, lexemes?]
  rw [List.append_nil] at hfeed
  obtain ⟨ls, hls, hrun⟩ := Option.bind_eq_some_iff.mp hfeed
  simp [parse?, compact, hls, hrun]

end Mustache.Json
