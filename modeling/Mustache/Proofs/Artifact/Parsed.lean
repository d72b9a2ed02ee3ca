import Mustache.Engine
import Mustache.Proofs.Artifact
import Mustache.Proofs.Node.Spans
import Mustache.Proofs.Token.Placed

/-!
The artifacts of parsed sources. The numbers of a tree are lines and places of its source, so if
the source is not too long for a place in it to fit into 64 bits, only the depth of the tree decides
whether it reads back. Main statement: `Engine.legible_iff_of_parse`.
-/

namespace Mustache

namespace Text

theorem newlines_le_byteLength (cs : List Char) : newlines cs ≤ byteLength cs := by
  induction cs with
  | nil => exact Nat.le_refl 0
  | cons c cs ih =>
    have hsize := c.utf8Size_pos
    have hcount : newlines (c :: cs) ≤ newlines cs + 1 := by
      unfold newlines
      rw [List.count_cons]
      split <;> omega
    rw [byteLength_cons]
    omega

end Text

namespace Json

@[simp] theorem isPlain_nat (n : Nat) : (nat n).isPlain ↔ n < digitBound := by
  simp [nat, isPlain]

@[simp] theorem isPlain_opt (s : Option String) : (opt string s).isPlain := by
  cases s <;> rfl

end Json

@[simp] theorem Delimiters.isPlain_toJson (d : Delimiters) : d.toJson.isPlain := rfl

/-- The numbers of the token fit into 64 bits. -/
structure Token.Fits64 (t : Token) : Prop where
  line : t.line < Json.digitBound
  start : t.start < Json.digitBound
  stop : t.stop < Json.digitBound

theorem Token.fits64_of_scan {d : Delimiters} (hd : d.SingleLine) {source : String}
    {ts : List Token} (h : scan d source = .ok ts)
    (hshort : Text.byteLength source.toList < Json.digitBound) {t : Token} (ht : t ∈ ts) :
    t.Fits64 := by
  obtain ⟨hstart, hstop⟩ := bounds_of_scan h ht
  obtain ⟨before, rest, hsource, hrest, -, hline⟩ := exists_append_of_mem_scan hd h ht
  refine ⟨?_, by omega, by omega⟩
  -- the token is not at the end of the source, so there are fewer newlines in front than bytes
  have hnewlines := Text.newlines_le_byteLength before
  have hpos := Text.byteLength_pos hrest
  rw [hsource, Text.byteLength_append] at hshort
  omega

namespace Node

variable {s : PragmaSet} {opened : Option Token} {t : Token}

theorem Reading.isPlain_leaf {inParent : Bool} {n : Node}
    (h : Reading.of s inParent t = .leaf n) (ht : t.Fits64) : n.toJson.isPlain := by
  have hline := ht.line
  unfold Reading.of at h
  cases inParent <;> split at h <;> (repeat' split at h) <;> simp_all <;> subst h <;>
    simp_all [toJson, Json.isPlain, Json.havePlain]

theorem Reading.isPlain_opens {inParent : Bool} {node : String → List Node → Nat → Node}
    (h : Reading.of s inParent t = .opens node) (ht : t.Fits64) {children : List Node}
    (hchildren : Json.arePlain (listToJson children)) {stop : Nat} (hstop : stop < Json.digitBound)
    (name : String) : (node name children stop).toJson.isPlain := by
  have hline := ht.line
  have hstart := ht.stop
  unfold Reading.of at h
  cases inParent <;> split at h <;> (repeat' split at h) <;> simp_all <;> subst h <;>
    simp_all [toJson, Json.isPlain, Json.havePlain]

/-- The numbers of a tree are those of its tokens. -/
theorem Parses.arePlain {ts : List Token} {ns : List Node} (h : Parses s opened ts ns)
    (hts : ∀ t ∈ ts, t.Fits64) : Json.arePlain (listToJson ns) := by
  induction h with
  | nil s opened => rfl
  | nothing _ _ ih => exact ih fun u hu => hts u (List.mem_cons_of_mem _ hu)
  | leaf hread _ ih =>
    have hrest := ih fun u hu => hts u (List.mem_cons_of_mem _ hu)
    exact Bool.and_eq_true_iff.mpr ⟨Reading.isPlain_leaf hread (hts _ List.mem_cons_self), hrest⟩
  | @enables s opened t ts ns hread _ ih =>
    have hrest := ih fun u hu => hts u (List.mem_cons_of_mem _ hu)
    have hline := (hts t List.mem_cons_self).line
    split
    · exact hrest
    · exact Bool.and_eq_true_iff.mpr ⟨by simp [toJson, Json.isPlain, Json.havePlain, hline], hrest⟩
  | selfClosing hread _ _ ih =>
    have hrest := ih fun u hu => hts u (List.mem_cons_of_mem _ hu)
    have hopens := hts _ List.mem_cons_self
    exact Bool.and_eq_true_iff.mpr ⟨Reading.isPlain_opens hread hopens rfl hopens.stop _, hrest⟩
  | @closed s opened t close body ts node children ns hread _ _ _ _ _ ihbody ih =>
    have hbody := ihbody fun u hu => hts u (List.mem_cons_of_mem t (List.mem_append_left _ hu))
    have hrest := ih fun u hu =>
      hts u (List.mem_cons_of_mem t (List.mem_append_right body (List.mem_cons_of_mem close hu)))
    have hclose := hts close (List.mem_cons_of_mem t List.mem_append_cons_self)
    exact Bool.and_eq_true_iff.mpr
      ⟨Reading.isPlain_opens hread (hts t List.mem_cons_self) hbody hclose.start _, hrest⟩

end Node

/-- **The artifact of a parsed source is legible just if its tree is not too deep.** -/
theorem Engine.legible_iff_of_parse {σ : Type} {e : Engine σ} (hd : e.delimiters.SingleLine)
    {source : String} {tree : List Node} (h : e.parse source = .ok tree)
    (hshort : Text.byteLength source.toList < Json.digitBound) (name key : String) :
    (⟨name, key, source, tree⟩ : Artifact).Legible ↔
      (⟨name, key, source, tree⟩ : Artifact).toJson.depth ≤ Json.maxDepth := by
  refine ⟨fun hlegible => hlegible.shallow, fun hdepth => ⟨?_, hdepth⟩⟩
  unfold parse tokenize at h
  cases hscan : Token.scan e.delimiters source with
  | error err =>
    rw [hscan] at h
    cases h
  | ok ts =>
    rw [hscan] at h
    have htree := (Node.parses_of_ofTokens h).arePlain fun t ht =>
      Token.fits64_of_scan hd hscan hshort ht
    simp [Artifact.toJson, Json.isPlain, Json.havePlain, htree]

end Mustache
