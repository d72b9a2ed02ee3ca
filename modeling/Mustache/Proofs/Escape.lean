import Mathlib.Logic.Function.Basic
import Mustache.Escape
import Mustache.Text.Space

/-!
What the built-in escape writes. Every character is written as itself or as an entity, and of those
that a mode encodes none is left but the ampersands that entities begin with. So a reader that goes
through the text once finds each entity where it was written, also when the text that was escaped
had entities of its own. Main statement: `escape_reversible`.
-/

namespace Mustache.Html

variable {mode : QuoteMode} {c d : Char} {cs before after : List Char} {name : String}

/-! ### What is encoded -/

/-- The characters that are encoded under a mode, the ampersand aside. -/
def Encodes (mode : QuoteMode) (c : Char) : Prop :=
  c = '<' ∨ c = '>' ∨ c = '"' ∧ mode ≠ .noQuotes ∨ c = '\'' ∧ mode = .quotes

theorem Encodes.not_isSpace (h : Encodes mode c) : Text.isSpace c = false := by
  rcases h with rfl | rfl | ⟨rfl, -⟩ | ⟨rfl, -⟩ <;> decide

theorem not_encodes_ampersand : ¬ Encodes mode '&' := by
  simp [Encodes]

/-- The characters that some mode encodes, each with its entity. -/
def entities : List (Char × String) :=
  [('&', "&amp;"), ('<', "&lt;"), ('>', "&gt;"), ('"', "&quot;"), ('\'', "&#039;")]

/-- A character is written as its entity, or as itself if the mode does not encode it. -/
theorem escapeChar_cases (mode : QuoteMode) (c : Char) :
    (∃ name, (c, name) ∈ entities ∧ escapeChar mode c = name.toList) ∨
      escapeChar mode c = [c] ∧ c ≠ '&' ∧ ¬ Encodes mode c := by
  unfold escapeChar entity?
  split
  · exact .inl ⟨"&amp;", by simp [entities], rfl⟩
  · exact .inl ⟨"&lt;", by simp [entities], rfl⟩
  · exact .inl ⟨"&gt;", by simp [entities], rfl⟩
  · by_cases hmode : mode = .noQuotes
    · simp [hmode, Encodes]
    · exact .inl ⟨"&quot;", by simp [entities], by simp [hmode]⟩
  · by_cases hmode : mode = .quotes
    · exact .inl ⟨"&#039;", by simp [entities], by simp [hmode]⟩
    · simp [hmode, Encodes]
  · rename_i hamp hlt hgt hdouble hsingle
    refine .inr ⟨rfl, hamp, ?_⟩
    rintro (rfl | rfl | ⟨rfl, -⟩ | ⟨rfl, -⟩)
    · exact hlt rfl
    · exact hgt rfl
    · exact hdouble rfl
    · exact hsingle rfl

/-- An entity begins with an ampersand, and nothing that follows is encoded. -/
theorem exists_tail_of_mem_entities (mode : QuoteMode) (h : (d, name) ∈ entities) :
    ∃ tail, name.toList = '&' :: tail ∧ ∀ c ∈ tail, ¬ (c = '&' ∨ Encodes mode c) := by
  simp only [entities, List.mem_cons, Prod.mk.injEq, List.not_mem_nil, or_false] at h
  rcases h with ⟨-, rfl⟩ | ⟨-, rfl⟩ | ⟨-, rfl⟩ | ⟨-, rfl⟩ | ⟨-, rfl⟩
  · exact ⟨"amp;".toList, rfl, by simp [Encodes]⟩
  · exact ⟨"lt;".toList, rfl, by simp [Encodes]⟩
  · exact ⟨"gt;".toList, rfl, by simp [Encodes]⟩
  · exact ⟨"quot;".toList, rfl, by simp [Encodes]⟩
  · exact ⟨"#039;".toList, rfl, by simp [Encodes]⟩

/-! ### Writing -/

theorem escapeChars_cons (mode : QuoteMode) (c : Char) (cs : List Char) :
    escapeChars mode (c :: cs) = escapeChar mode c ++ escapeChars mode cs := List.flatMap_cons

theorem toList_escape (mode : QuoteMode) (text : String) :
    (escape mode text).toList = escapeChars mode text.toList := String.toList_ofList

theorem escape_append (mode : QuoteMode) (s t : String) :
    escape mode (s ++ t) = escape mode s ++ escape mode t := by
  unfold escape escapeChars
  rw [String.toList_append, List.flatMap_append, String.ofList_append]

/-- A character that is encoded stands in what is written for another one only where an entity
begins. -/
theorem ampersand_of_escapeChar (h : escapeChar mode d = before ++ c :: after)
    (hc : c = '&' ∨ Encodes mode c) :
    before = [] ∧ c = '&' ∧ ∃ name, (d, name) ∈ entities ∧ name.toList = c :: after := by
  rcases escapeChar_cases mode d with ⟨name, hname, hwritten⟩ | ⟨hwritten, hamp, hplain⟩
  · obtain ⟨tail, htail, hrest⟩ := exists_tail_of_mem_entities mode hname
    have hsplit : '&' :: tail = before ++ c :: after := by rw [← htail, ← hwritten, h]
    cases before with
    | nil =>
      obtain ⟨rfl, rfl⟩ := List.cons.inj hsplit
      exact ⟨rfl, rfl, name, hname, htail⟩
    | cons b before =>
      have hmem : c ∈ tail := by simp [(List.cons.inj hsplit).2]
      exact absurd hc (hrest c hmem)
  · have hmem : c ∈ [d] := by simp [← hwritten, h]
    obtain rfl := List.mem_singleton.mp hmem
    exact absurd hc (not_or.mpr ⟨hamp, hplain⟩)

/-- Of the characters that are encoded, those left are the ampersands that entities begin with. -/
theorem ampersand_of_escapeChars (h : escapeChars mode cs = before ++ c :: after)
    (hc : c = '&' ∨ Encodes mode c) :
    c = '&' ∧ ∃ entity ∈ entities, entity.2.toList <+: c :: after := by
  induction cs generalizing before with
  | nil => simp [escapeChars] at h
  | cons d cs ih =>
    rw [escapeChars_cons] at h
    -- the character stands behind what is written for `d`, or within it
    rcases List.append_eq_append_iff.mp h with ⟨front, -, hrest⟩ | ⟨rest, hfirst, hafter⟩
    · exact ih hrest
    · cases rest with
      | nil =>
        have hrest : escapeChars mode cs = [] ++ c :: after := hafter.symm
        exact ih hrest
      | cons c' rest =>
        obtain ⟨rfl, rfl⟩ := List.cons.inj hafter
        obtain ⟨-, hamp, name, hname, hentity⟩ := ampersand_of_escapeChar hfirst hc
        refine ⟨hamp, (d, name), hname, ?_⟩
        rw [hentity]
        exact List.prefix_append (c :: rest) _

/-- **Escaped text has no character that is encoded.** -/
theorem notMem_escape (h : Encodes mode c) (text : String) : c ∉ (escape mode text).toList := by
  rw [toList_escape]
  intro hmem
  obtain ⟨before, after, hsplit⟩ := List.append_of_mem hmem
  obtain ⟨rfl, -⟩ := ampersand_of_escapeChars hsplit (.inr h)
  exact not_encodes_ampersand h

/-! ### Reading -/

/-- Puts characters in the place of their entities, from left to right. What comes of an entity is
not read again. -/
def unescapeChars : List Char → List Char
  | '&' :: 'a' :: 'm' :: 'p' :: ';' :: cs => '&' :: unescapeChars cs
  | '&' :: 'l' :: 't' :: ';' :: cs => '<' :: unescapeChars cs
  | '&' :: 'g' :: 't' :: ';' :: cs => '>' :: unescapeChars cs
  | '&' :: 'q' :: 'u' :: 'o' :: 't' :: ';' :: cs => '"' :: unescapeChars cs
  | '&' :: '#' :: '0' :: '3' :: '9' :: ';' :: cs => '\'' :: unescapeChars cs
  | c :: cs => c :: unescapeChars cs
  | [] => []

def unescape (text : String) : String := String.ofList (unescapeChars text.toList)

theorem unescapeChars_cons_of_ne (h : c ≠ '&') (cs : List Char) :
    unescapeChars (c :: cs) = c :: unescapeChars cs := by
  simp [unescapeChars, h]

theorem unescapeChars_entity (h : (c, name) ∈ entities) (cs : List Char) :
    unescapeChars (name.toList ++ cs) = c :: unescapeChars cs := by
  simp only [entities, List.mem_cons, Prod.mk.injEq, List.not_mem_nil, or_false] at h
  rcases h with ⟨rfl, rfl⟩ | ⟨rfl, rfl⟩ | ⟨rfl, rfl⟩ | ⟨rfl, rfl⟩ | ⟨rfl, rfl⟩ <;> rfl

theorem unescapeChars_escapeChars (mode : QuoteMode) (cs : List Char) :
    unescapeChars (escapeChars mode cs) = cs := by
  induction cs with
  | nil => rfl
  | cons c cs ih =>
    rw [escapeChars_cons]
    rcases escapeChar_cases mode c with ⟨name, hname, hwritten⟩ | ⟨hwritten, hamp, -⟩
    · rw [hwritten, unescapeChars_entity hname, ih]
    · rw [hwritten, List.singleton_append, unescapeChars_cons_of_ne hamp, ih]

theorem unescape_escape (mode : QuoteMode) (text : String) :
    unescape (escape mode text) = text := by
  rw [unescape, toList_escape, unescapeChars_escapeChars, String.ofList_toList]

/-- **Escaping can be undone, and leaves nothing that a mode encodes**: reading gives the text back,
an encoded character stands in the escaped text only as the ampersand of an entity, and texts are
escaped piece by piece. -/
theorem escape_reversible (mode : QuoteMode) :
    (∀ text, unescape (escape mode text) = text) ∧
      Function.Injective (escape mode) ∧
      (∀ text before c after, (escape mode text).toList = before ++ c :: after →
        c = '&' ∨ Encodes mode c →
        c = '&' ∧ ∃ entity ∈ entities, entity.2.toList <+: c :: after) ∧
      ∀ s t, escape mode (s ++ t) = escape mode s ++ escape mode t := by
  have hback : Function.LeftInverse unescape (escape mode) := unescape_escape mode
  refine ⟨hback, hback.injective, ?_, escape_append mode⟩
  intro text before c after h hc
  rw [toList_escape] at h
  exact ampersand_of_escapeChars h hc

/-- A text that has an entity of its own and a quote. -/
theorem escape_reversible_own_entity :
    escape .quotes "&lt;'" = "&amp;lt;&#039;" ∧ unescape "&amp;lt;&#039;" = "&lt;'" ∧
      ∃ entity ∈ entities, entity.2.toList <+: "&#039;".toList := by
  have hwritten : escape .quotes "&lt;'" = "&amp;lt;&#039;" := by decide
  obtain ⟨hback, -, hplace, -⟩ := escape_reversible .quotes
  refine ⟨hwritten, by rw [← hwritten, hback], ?_⟩
  exact (hplace "&lt;'" "&amp;lt;".toList '&' "#039;".toList (by decide) (.inl rfl)).2

end Mustache.Html
