import Daryl.Hexa.Project

/-!
# `hexashard.retrieval`: chunks of sources

The text of a source is cut into chunks at its blank lines.  Short paragraphs are packed
into one chunk, with a blank line between them, and long ones are cut into pieces.

## Main definitions

* `paragraphs`, `packParagraph`, `chunk` — `chunk`; `none` is a loop that does not end.
* `splitDouble` — `s.split("\n\n")`.

## Main results

* `nonBlank_paragraphs` — the paragraphs drop white space only.
* `chunk_faithful` — **the chunks are short, none is empty, and split again they are the
  paragraphs, with the long ones cut.**
-/

namespace Daryl

namespace Hexa

open Py Json

/-! ### Paragraphs -/

/-- How far white space up to its last newline goes. -/
def blankLength : PyStr → ℕ
  | [] => 0
  | c :: s =>
    if c.isSpace then
      if blankLength s ≠ 0 then blankLength s + 1 else if c = nl then 1 else 0
    else 0

/-- `re.split(r"\n\s*\n", s)`, with the characters of a separator that are left to skip and
the text since the last one. -/
def splitBlank : ℕ → PyStr → PyStr → List PyStr
  | _, acc, [] => [acc]
  | skip + 1, acc, _ :: s => splitBlank skip acc s
  | 0, acc, c :: s =>
    if c = nl ∧ blankLength s ≠ 0 then acc :: splitBlank (blankLength s) [] s
    else splitBlank 0 (acc ++ [c]) s

/-- The stripped paragraphs that are not empty. -/
def paragraphs (content : PyStr) : List PyStr :=
  ((splitBlank 0 [] content).map strip).filter fun p => p ≠ []

/-! ### Packing -/

/-- What is written with a buffer that is not empty. -/
def flushed (out : List PyStr) (buf : PyStr) : List PyStr := if buf = [] then out else out ++ [buf]

/-- The inner loop: pieces are cut off a paragraph while it is too long. -/
def cutLong (chunkChars : ℕ) : ℕ → List PyStr → PyStr → PyStr → Option (List PyStr × PyStr × PyStr)
  | fuel, out, buf, p =>
    if p.length ≤ chunkChars then some (out, buf, p)
    else
      match fuel with
      | 0 => none
      | fuel + 1 =>
        cutLong chunkChars fuel (flushed out buf ++ [p.take chunkChars]) [] (p.drop chunkChars)

/-- One paragraph; a loop that cuts something off every time is done after as many rounds as
the paragraph has characters. -/
def packParagraph (chunkChars : ℕ) (st : List PyStr × PyStr) (p : PyStr) :
    Option (List PyStr × PyStr) :=
  (cutLong chunkChars p.length st.1 st.2 p).map fun
    | (out, buf, p) =>
      if buf = [] then (out, p)
      else if buf.length + 2 + p.length ≤ chunkChars then (out, buf ++ nl :: nl :: p)
      else (out ++ [buf], p)

/-- `chunk`. -/
def chunk (content : PyStr) (chunkChars : ℕ) : Option (List PyStr) :=
  ((paragraphs content).foldlM (packParagraph chunkChars) ([], [])).map fun st =>
    flushed st.1 st.2

/-! ### Splitting again -/

/-- `s.split("\n\n")`. -/
def splitDouble : PyStr → List PyStr
  | [] => [[]]
  | [c] => [[c]]
  | c :: d :: s =>
    if c = nl ∧ d = nl then [] :: splitDouble s
    else
      match splitDouble (d :: s) with
      | [] => [[c]]
      | x :: xs => (c :: x) :: xs

/-- No two newlines next to each other. -/
def Single (s : PyStr) : Prop := ¬[nl, nl] <:+: s

theorem splitDouble_blank (t : PyStr) : splitDouble (nl :: nl :: t) = [] :: splitDouble t :=
  if_pos ⟨rfl, rfl⟩

theorem splitDouble_ne_nil : ∀ s : PyStr, splitDouble s ≠ []
  | [] => List.cons_ne_nil _ _
  | [_] => List.cons_ne_nil _ _
  | c :: d :: s => by
    rw [splitDouble]
    split_ifs
    · exact List.cons_ne_nil _ _
    · split <;> exact List.cons_ne_nil _ _

/-- A character that starts no blank line goes in front of the first part. -/
theorem splitDouble_cons {c d : CodePoint} (h : ¬(c = nl ∧ d = nl)) {s x : PyStr}
    {xs : List PyStr} (hs : splitDouble (d :: s) = x :: xs) :
    splitDouble (c :: d :: s) = (c :: x) :: xs := by
  rw [splitDouble, if_neg h, hs]

theorem Single.tail {c : CodePoint} {s : PyStr} (h : Single (c :: s)) : Single s := fun hs =>
  h (hs.trans (List.suffix_cons c s).isInfix)

theorem Single.of_infix {s t : PyStr} (h : Single t) (hs : s <:+: t) : Single s := fun hnl =>
  h (hnl.trans hs)

/-- **A text without a blank line is not split.** -/
theorem splitDouble_single : ∀ {s : PyStr}, Single s → splitDouble s = [s]
  | [], _ => rfl
  | [_], _ => rfl
  | c :: d :: s, h => by
    have hcd : ¬(c = nl ∧ d = nl) := by
      rintro ⟨rfl, rfl⟩
      exact h (List.prefix_append [nl, nl] s).isInfix
    exact splitDouble_cons hcd (splitDouble_single h.tail)

/-- **A text is split at a blank line behind another character.** -/
theorem splitDouble_append : ∀ {s : PyStr}, s.getLast? ≠ some nl → ∀ t : PyStr,
    splitDouble (s ++ nl :: nl :: t) = splitDouble s ++ splitDouble t
  | [], _, t => splitDouble_blank t
  | [c], h, t => by
    have hc : c ≠ nl := fun hc => h (by rw [hc]; rfl)
    exact splitDouble_cons (fun hcn => hc hcn.1) (splitDouble_blank t)
  | c :: d :: s, h, t => by
    rw [List.getLast?_cons_cons] at h
    by_cases hcd : c = nl ∧ d = nl
    · -- both newlines are in front, and the text goes on behind them
      obtain ⟨rfl, rfl⟩ := hcd
      have hs : s.getLast? ≠ some nl := by
        cases s with
        | nil => exact absurd rfl h
        | cons a s =>
          rw [List.getLast?_cons_cons] at h
          exact h
      rw [splitDouble_blank, List.cons_append, List.cons_append, splitDouble_blank,
        splitDouble_append hs, List.cons_append]
    · have ih := splitDouble_append h t
      obtain ⟨x, xs, hx⟩ := List.exists_cons_of_ne_nil (splitDouble_ne_nil (d :: s))
      rw [hx] at ih
      rw [splitDouble_cons hcd hx]
      exact splitDouble_cons hcd ih

/-! ### What paragraphs are -/

theorem blankLength_cons_nl (s : PyStr) : blankLength (nl :: s) ≠ 0 := by
  have hspace : nl.isSpace = true := by decide
  rw [blankLength, if_pos hspace, if_pos rfl]
  split_ifs <;> omega

theorem single_concat {acc : PyStr} {c : CodePoint} (hacc : Single acc)
    (hlast : acc.getLast? = some nl → c ≠ nl) : Single (acc ++ [c]) := by
  intro hnl
  rcases List.infix_concat_iff.mp hnl with ⟨t, ht⟩ | hin
  · have hsplit : (t ++ [nl]) ++ [nl] = acc ++ [c] := by
      rw [← ht, List.append_assoc]
      rfl
    obtain ⟨hacc', hc⟩ := List.append_inj' hsplit rfl
    refine hlast ?_ (List.singleton_inj.mp hc).symm
    rw [← hacc', List.getLast?_concat]
  · exact hacc hin

/-- Between two blank lines no newline follows another. -/
theorem single_splitBlank : ∀ {s : PyStr} {skip : ℕ} {acc : PyStr}, Single acc →
    (skip = 0 → acc.getLast? = some nl → s.head? ≠ some nl) →
    (skip ≠ 0 → acc = []) → ∀ p ∈ splitBlank skip acc s, Single p
  | [], _, acc, hacc, _, _ => by
    unfold splitBlank
    rw [List.forall_mem_singleton]
    exact hacc
  | _ :: s, skip + 1, acc, hacc, _, hskip => by
    rw [splitBlank]
    have hnil : acc = [] := hskip (by omega)
    refine single_splitBlank hacc (fun _ hlast => ?_) fun _ => hnil
    rw [hnil] at hlast
    cases hlast
  | c :: s, 0, acc, hacc, hnext, _ => by
    rw [splitBlank]
    split_ifs with hblank
    · rw [List.forall_mem_cons]
      have hnil : Single [] := fun h => by simpa using List.infix_nil.mp h
      exact ⟨hacc, single_splitBlank hnil (fun h => absurd h hblank.2) fun _ => rfl⟩
    · refine single_splitBlank (single_concat hacc fun hlast hc => ?_) (fun _ hlast hhead => ?_)
        fun h => absurd rfl h
      · exact hnext rfl hlast (by rw [hc]; rfl)
      · -- a newline that is kept is not followed by another
        rw [List.getLast?_concat, Option.some.injEq] at hlast
        obtain ⟨s, rfl⟩ : ∃ r, s = nl :: r := by
          cases s with
          | nil => cases hhead
          | cons d r => exact ⟨r, by rw [Option.some.inj hhead]⟩
        exact hblank ⟨hlast, blankLength_cons_nl s⟩

theorem getLast?_strip {s : PyStr} : (strip s).getLast? ≠ some nl := by
  intro hlast
  rw [strip, List.getLast?_reverse] at hlast
  have hspace := List.head?_dropWhile_not CodePoint.isSpace
    (s.dropWhile CodePoint.isSpace).reverse
  rw [hlast] at hspace
  exact absurd hspace (by decide)

/-- **Paragraphs are not empty**, and have neither a blank line in them nor a newline at the
end. -/
theorem paragraph_spec {content p : PyStr} (h : p ∈ paragraphs content) :
    p ≠ [] ∧ Single p ∧ p.getLast? ≠ some nl := by
  obtain ⟨hp, hne⟩ := List.mem_filter.mp h
  obtain ⟨q, hq, rfl⟩ := List.mem_map.mp hp
  have hnil : Single [] := fun h => by simpa using List.infix_nil.mp h
  have hsingle : Single q :=
    single_splitBlank hnil (fun _ h => by cases h) (fun _ => rfl) q hq
  exact ⟨of_decide_eq_true hne, hsingle.of_infix (strip_isInfix q), getLast?_strip⟩

/-! ### What paragraphs hold -/

/-- The characters that are not white space. -/
def nonBlank (s : PyStr) : PyStr := s.filter fun c => !c.isSpace

theorem nonBlank_append (s t : PyStr) : nonBlank (s ++ t) = nonBlank s ++ nonBlank t :=
  List.filter_append _ _

theorem nonBlank_dropWhile (s : PyStr) :
    nonBlank (s.dropWhile CodePoint.isSpace) = nonBlank s := by
  induction s with
  | nil => rfl
  | cons c s ih =>
    by_cases hc : c.isSpace = true
    · rw [List.dropWhile_cons_of_pos hc, ih, nonBlank, nonBlank, List.filter_cons_of_neg (by simp [hc])]
    · rw [List.dropWhile_cons_of_neg hc]

theorem nonBlank_strip (s : PyStr) : nonBlank (strip s) = nonBlank s := by
  have hreverse (t : PyStr) : nonBlank t.reverse = (nonBlank t).reverse := List.filter_reverse
  rw [strip, hreverse, nonBlank_dropWhile, hreverse, List.reverse_reverse, nonBlank_dropWhile]

/-- What stands before the last newline of a separator is white space. -/
theorem isSpace_of_mem_take : ∀ {s : PyStr}, ∀ c ∈ s.take (blankLength s), c.isSpace = true
  | [], c, h => by cases h
  | d :: s, c, h => by
    rw [blankLength] at h
    split_ifs at h with hd hblank hnl
    · rw [List.take_succ_cons] at h
      rcases List.mem_cons.mp h with rfl | h
      · exact hd
      · exact isSpace_of_mem_take c h
    · obtain rfl := List.mem_singleton.mp h
      exact hd
    · cases h
    · cases h

/-- Splitting at blank lines drops white space only. -/
theorem nonBlank_splitBlank : ∀ {s : PyStr} {skip : ℕ} {acc : PyStr},
    (∀ c ∈ s.take skip, c.isSpace = true) →
    nonBlank (splitBlank skip acc s).flatten = nonBlank (acc ++ s)
  | [], skip, acc, _ => by
    cases skip <;> simp [splitBlank]
  | c :: s, skip + 1, acc, h => by
    have hc : c.isSpace = true := h c (by simp)
    have hrest : ∀ d ∈ s.take skip, d.isSpace = true := fun d hd =>
      h d (by rw [List.take_succ_cons]; exact List.mem_cons_of_mem _ hd)
    rw [splitBlank, nonBlank_splitBlank hrest]
    simp [nonBlank, hc]
  | c :: s, 0, acc, _ => by
    rw [splitBlank]
    split_ifs with hblank
    · have hc : c.isSpace = true := by rw [hblank.1]; decide
      rw [List.flatten_cons, nonBlank_append, nonBlank_splitBlank isSpace_of_mem_take]
      simp [nonBlank, hc]
    · rw [nonBlank_splitBlank (by simp), List.append_assoc, List.singleton_append]

/-- **The paragraphs hold every character that is not white space, once and in order.** -/
theorem nonBlank_paragraphs (content : PyStr) :
    nonBlank (paragraphs content).flatten = nonBlank content := by
  have hstrip (ps : List PyStr) : nonBlank (ps.map strip).flatten = nonBlank ps.flatten := by
    rw [nonBlank, nonBlank, List.filter_flatten, List.filter_flatten, List.map_map]
    exact congrArg List.flatten (List.map_congr_left fun p _ => nonBlank_strip p)
  rw [paragraphs, List.flatten_filter_ne_nil, hstrip, nonBlank_splitBlank (by simp),
    List.nil_append]

/-! ### What packing keeps -/

/-- The invariant: what is written and buffered is short, and split again it is the pieces. -/
structure Packed (chunkChars : ℕ) (st : List PyStr × PyStr) (pieces : List PyStr) : Prop where
  short : ∀ c ∈ flushed st.1 st.2, c ≠ [] ∧ c.length ≤ chunkChars
  split : (flushed st.1 st.2).flatMap splitDouble = pieces
  last : st.2.getLast? ≠ some nl

/-- The pieces of a paragraph: put together they are the paragraph, and one that is short is
not cut. -/
def CutFrom (chunkChars : ℕ) (p : PyStr) (pieces : List PyStr) : Prop :=
  pieces.flatten = p ∧ (p.length ≤ chunkChars → pieces = [p])

theorem flushed_of_ne {out : List PyStr} {buf : PyStr} (h : buf ≠ []) :
    flushed out buf = out ++ [buf] := if_neg h

theorem flushed_nil (out : List PyStr) : flushed out [] = out := if_pos rfl

variable {chunkChars : ℕ}

/-- A piece goes behind what is flushed. -/
theorem Packed.concat {out : List PyStr} {buf : PyStr} {pieces : List PyStr}
    (h : Packed chunkChars (out, buf) pieces) {p : PyStr} (hne : p ≠ [])
    (hlen : p.length ≤ chunkChars) (hp : Single p) :
    (∀ c ∈ flushed out buf ++ [p], c ≠ [] ∧ c.length ≤ chunkChars) ∧
      (flushed out buf ++ [p]).flatMap splitDouble = pieces ++ [p] := by
  refine ⟨?_, ?_⟩
  · rw [List.forall_mem_append, List.forall_mem_singleton]
    exact ⟨h.short, hne, hlen⟩
  · rw [List.flatMap_append, List.flatMap_singleton, splitDouble_single hp]
    exact congrArg (· ++ [p]) h.split

/-- **The inner loop ends**: what it cuts off is written, and a short rest stays. -/
theorem cutLong_spec (hn : 1 ≤ chunkChars) : ∀ {fuel : ℕ} {out : List PyStr} {buf p : PyStr}
    {pieces : List PyStr}, p.length ≤ fuel → p ≠ [] → Single p →
    Packed chunkChars (out, buf) pieces →
    ∃ out' buf' p' cut, cutLong chunkChars fuel out buf p = some (out', buf', p') ∧
      Packed chunkChars (out', buf') (pieces ++ cut) ∧ p'.length ≤ chunkChars ∧ p' ≠ [] ∧
      cut.flatten ++ p' = p ∧ (p.length ≤ chunkChars → cut = []) := by
  intro fuel
  induction fuel with
  | zero =>
    intro out buf p pieces hfuel hne
    exact absurd (List.length_eq_zero_iff.mp (Nat.le_zero.mp hfuel)) hne
  | succ fuel ih =>
    intro out buf p pieces hfuel hne hp h
    by_cases hshort : p.length ≤ chunkChars
    · refine ⟨out, buf, p, [], ?_, ?_, hshort, hne, rfl, fun _ => rfl⟩
      · rw [cutLong, if_pos hshort]
      · rwa [List.append_nil]
    · -- the piece that is cut off has the full length, and something is left
      have htake : (p.take chunkChars).length = chunkChars :=
        List.length_take_of_le (by omega)
      have hcut : p.take chunkChars ≠ [] := fun hnil => by
        rw [hnil, List.length_nil] at htake
        omega
      have hleft : (p.drop chunkChars).length = p.length - chunkChars := List.length_drop
      have hrest : p.drop chunkChars ≠ [] := fun hnil => by
        rw [hnil, List.length_nil] at hleft
        omega
      obtain ⟨hshort', hsplit⟩ := h.concat hcut htake.le
        (hp.of_infix (List.take_prefix _ _).isInfix)
      have hnext : Packed chunkChars (flushed out buf ++ [p.take chunkChars], [])
          (pieces ++ [p.take chunkChars]) := by
        refine ⟨?_, ?_, fun hnil => by cases hnil⟩
        · rwa [flushed_nil]
        · rwa [flushed_nil]
      obtain ⟨out', buf', p', cut, hrun, hpacked, hlen, hne', hflat, -⟩ :=
        ih (by omega) hrest (hp.of_infix (List.drop_suffix _ _).isInfix) hnext
      refine ⟨out', buf', p', p.take chunkChars :: cut, ?_, ?_, hlen, hne', ?_,
        fun h => absurd h hshort⟩
      · rw [cutLong, if_neg hshort]
        exact hrun
      · rwa [List.append_assoc, List.singleton_append] at hpacked
      · rw [List.flatten_cons, List.append_assoc, hflat, List.take_append_drop]

/-- **One paragraph**: its pieces come behind those before. -/
theorem packParagraph_spec (hn : 1 ≤ chunkChars) {st : List PyStr × PyStr} {p : PyStr}
    {pieces : List PyStr} (h : Packed chunkChars st pieces) (hne : p ≠ []) (hp : Single p)
    (hlast : p.getLast? ≠ some nl) :
    ∃ st' cut, packParagraph chunkChars st p = some st' ∧
      Packed chunkChars st' (pieces ++ cut) ∧ CutFrom chunkChars p cut := by
  obtain ⟨out, buf, p', cut, hrun, hpacked, hlen, hne', rfl, hcut⟩ :=
    cutLong_spec hn (p := p) le_rfl hne hp h
  have hp' : Single p' := hp.of_infix (List.suffix_append _ _).isInfix
  have hlast' : p'.getLast? ≠ some nl := by
    rwa [List.getLast?_append_of_ne_nil _ hne'] at hlast
  obtain ⟨hshort, hsplit⟩ := hpacked.concat hne' hlen hp'
  have hfrom : CutFrom chunkChars (cut.flatten ++ p') (cut ++ [p']) := by
    refine ⟨by rw [List.flatten_concat], fun h => ?_⟩
    rw [hcut h]
    rfl
  rw [packParagraph, hrun, Option.map_some]
  simp only
  by_cases hbuf : buf = []
  · subst hbuf
    rw [flushed_nil] at hshort hsplit
    rw [if_pos rfl]
    refine ⟨_, cut ++ [p'], rfl, ⟨?_, ?_, hlast'⟩, hfrom⟩
    · rwa [flushed_of_ne hne']
    · rw [flushed_of_ne hne', hsplit, List.append_assoc]
  · rw [if_neg hbuf]
    rw [flushed_of_ne hbuf] at hshort hsplit
    by_cases hfits : buf.length + 2 + p'.length ≤ chunkChars
    · -- the paragraph joins the buffer, behind a blank line
      have hjoined : buf ++ nl :: nl :: p' ≠ [] := by simp
      rw [if_pos hfits]
      refine ⟨_, cut ++ [p'], rfl, ⟨?_, ?_, ?_⟩, hfrom⟩
      · rw [flushed_of_ne hjoined, List.forall_mem_append, List.forall_mem_singleton]
        refine ⟨fun c hc => hshort c (List.mem_append_left _ (List.mem_append_left _ hc)),
          hjoined, ?_⟩
        rw [List.length_append, List.length_cons, List.length_cons]
        omega
      · rw [flushed_of_ne hjoined, List.flatMap_append, List.flatMap_singleton,
          splitDouble_append hpacked.last, splitDouble_single hp', ← List.append_assoc,
          ← List.append_assoc, ← hpacked.split]
        simp [flushed_of_ne hbuf]
      · simp only
        rw [List.getLast?_append_of_ne_nil _ (List.cons_ne_nil _ _)]
        obtain ⟨c, p', rfl⟩ := List.exists_cons_of_ne_nil hne'
        rw [List.getLast?_cons_cons, List.getLast?_cons_cons]
        exact hlast'
    · rw [if_neg hfits]
      refine ⟨_, cut ++ [p'], rfl, ⟨?_, ?_, hlast'⟩, hfrom⟩
      · rwa [flushed_of_ne hne']
      · rw [flushed_of_ne hne', hsplit, List.append_assoc]

/-- All paragraphs. -/
theorem packParagraphs_spec (hn : 1 ≤ chunkChars) : ∀ {ps : List PyStr} {st : List PyStr × PyStr}
    {pieces : List PyStr}, Packed chunkChars st pieces →
    (∀ p ∈ ps, p ≠ [] ∧ Single p ∧ p.getLast? ≠ some nl) →
    ∃ st' cuts, ps.foldlM (packParagraph chunkChars) st = some st' ∧
      Packed chunkChars st' (pieces ++ List.flatten cuts) ∧
      List.Forall₂ (CutFrom chunkChars) ps cuts := by
  intro ps
  induction ps with
  | nil =>
    intro st pieces h _
    exact ⟨st, [], rfl, by rwa [List.flatten_nil, List.append_nil], .nil⟩
  | cons p ps ih =>
    intro st pieces h hps
    obtain ⟨hne, hp, hlast⟩ := hps p List.mem_cons_self
    obtain ⟨st₁, cut, hrun, hpacked, hcut⟩ := packParagraph_spec hn h hne hp hlast
    obtain ⟨st₂, cuts, hruns, hpacked', hcuts⟩ :=
      ih hpacked fun q hq => hps q (List.mem_cons_of_mem _ hq)
    refine ⟨st₂, cut :: cuts, ?_, ?_, .cons hcut hcuts⟩
    · rw [List.foldlM_cons, hrun]
      exact hruns
    · rwa [List.flatten_cons, ← List.append_assoc]

/-- **Chunking loses nothing**: it ends, its chunks are short and not empty, and split at
their blank lines they are the paragraphs in their order, the long ones cut into pieces. -/
theorem chunk_faithful (content : PyStr) (hn : 1 ≤ chunkChars) :
    ∃ chunks cuts, chunk content chunkChars = some chunks ∧
      (∀ c ∈ chunks, c ≠ [] ∧ c.length ≤ chunkChars) ∧
      chunks.flatMap splitDouble = List.flatten cuts ∧
      List.Forall₂ (CutFrom chunkChars) (paragraphs content) cuts := by
  have hstart : Packed chunkChars ([], []) [] :=
    ⟨List.forall_mem_nil _, rfl, fun h => by cases h⟩
  obtain ⟨st, cuts, hrun, hpacked, hcuts⟩ :=
    packParagraphs_spec hn hstart fun p hp => paragraph_spec hp
  refine ⟨flushed st.1 st.2, cuts, ?_, hpacked.short, hpacked.split, hcuts⟩
  rw [chunk, hrun, Option.map_some]

theorem chunk_faithful_sample : ∃ chunks cuts,
    chunk (py "ab\n\ncdefgh") 4 = some chunks ∧ (∀ c ∈ chunks, c ≠ [] ∧ c.length ≤ 4) ∧
      chunks.flatMap splitDouble = List.flatten cuts ∧
      List.Forall₂ (CutFrom 4) (paragraphs (py "ab\n\ncdefgh")) cuts :=
  chunk_faithful (py "ab\n\ncdefgh") (by decide)

example : chunk (py "ab\n \n\ncdefgh\n\ni") 6 = some [py "ab", py "cdefgh", py "i"] := by
  decide

end Hexa

end Daryl
