import SexpEditing.Proofs.Evaluator.Conduct
import SexpEditing.Proofs.Evaluator.Meaning
import SexpEditing.Proofs.Expr.Marks

/-!
# The statements of a region

A region is sent unit by unit, each one as a statement of its own. Its units are found by going
forward from the start of the region: the first one is the token in which the region starts, if it
starts inside one, and marks that quote nothing are a unit like any other. So a statement of a region
may begin before the region, and need not be an expression. Both can be told from the tokens.

## Main definitions

* `Sexp.tokensIn`: the tokens of a unit
* `Channel.regionUnits`: the units of a region that are sent
* `Statement.IsExpression`: a statement is one expression

## Main results

* `Navigator.forall_start_le_iff`: when all units of a region start in it
* `Navigator.isExpression_iff`: when a unit is an expression
* `Channel.region_statements_iff`: when a region is sent as whole expressions
* `Channel.region_sends_parts`: regions that are not
-/

namespace SexpEditing

open CodeUnit Token

/-! ### The tokens of a unit -/

/-- The significant tokens of a text that lie in the range of a unit. -/
def Sexp.tokensIn (t : Text) (u : Sexp) : List Token :=
  (significantTokens t).filter fun x => u.range.start ≤ x.start && x.stop ≤ u.range.stop

/-- Tokens in order are found again by the places of the first and the last one of them. -/
theorem Token.Ordered.filter_of_standsAt {ts us : List Token} (h : Ordered ts) {first last : Nat}
    (hus : Span.StandsAt ts us first last) (hf : first < ts.length) (hl : last < ts.length) :
    (ts.filter fun x => ts[first].start ≤ x.start && x.stop ≤ ts[last].stop) = us := by
  obtain ⟨before, after, hts, hfirst, hlast⟩ := hus
  -- where a member of one of the three parts stands
  have hplace {pre part post : List Token} (hsplit : ts = pre ++ part ++ post) {x : Token}
      (hx : x ∈ part) : ∃ k, ∃ hk : k < ts.length, ts[k] = x ∧ pre.length ≤ k ∧
        k < pre.length + part.length := by
    obtain ⟨k, hk, rfl⟩ := List.getElem_of_mem hx
    have hget : ts[pre.length + k]? = some part[k] := by
      rw [hsplit, List.append_assoc, List.getElem?_append_right (Nat.le_add_right _ _),
        Nat.add_sub_cancel_left, List.getElem?_append_left hk, List.getElem?_eq_getElem hk]
    obtain ⟨hlt, he⟩ := List.getElem?_eq_some_iff.mp hget
    exact ⟨_, hlt, he, by omega, by omega⟩
  generalize hp : (fun x : Token =>
    decide (ts[first].start ≤ x.start) && decide (x.stop ≤ ts[last].stop)) = p
  have hbefore : before.filter p = [] := by
    refine List.filter_eq_nil_iff.mpr fun x hx => ?_
    have hfront : ts = [] ++ before ++ (us ++ after) := by simp [hts]
    obtain ⟨k, hk, rfl, -, hlt⟩ := hplace hfront hx
    have := h.start_lt_start (i := k) (j := first) (by simpa [hfirst] using hlt) hf
    simp [← hp]
    omega
  have hafter : after.filter p = [] := by
    refine List.filter_eq_nil_iff.mpr fun x hx => ?_
    have hback : ts = before ++ us ++ after ++ [] := by simp [hts]
    obtain ⟨k, hk, rfl, hle, -⟩ := hplace hback hx
    rw [List.length_append] at hle
    have := h.stop_lt_stop (i := last) (j := k) (by omega) hk
    simp [← hp]
    omega
  have hself : us.filter p = us := by
    refine List.filter_eq_self.mpr fun x hx => ?_
    obtain ⟨k, hk, rfl, hle, hlt⟩ := hplace hts hx
    have hstart := h.start_le_start (i := first) (j := k) (by omega) hk
    have hstop := h.stop_le_stop (i := k) (j := last) (by omega) hl
    simp [← hp, hstart, hstop]
  rw [hts, List.filter_append, List.filter_append, hbefore, hself, hafter, List.append_nil,
    List.nil_append]

variable {d : Document} {maxSteps : Nat} {sexp : Sexp}

namespace Navigator

/-- **The lexemes of a unit** are those of its tokens. -/
theorem significant_lexemes_textOf {u : Span} (hu : u.sexp (significantTokens d.text) = some sexp)
    (hle : u.first ≤ u.last) (hlast : u.last < (significantTokens d.text).length) :
    Lexeme.significant (lexemes ((ofDocument d maxSteps).textOf sexp)) =
      (sexp.tokensIn d.text).map Token.toLexeme := by
  obtain ⟨i, j, hi, hj, hij, hfirst, hstop⟩ := exists_tokenize_indices hle hlast
  have hpiece := (ordered_tokenize d.text).filter_of_standsAt
    (Span.standsAt_take_drop hij hj) hi hj
  have hslice := tokenize_slice hi hj hij
  rw [List.extract_eq_take_drop, ← List.drop_take, ← hpiece, hfirst, hstop,
    ← Document.readRange_eq_slice] at hslice
  rw [Span.sexp_eq_some (Nat.lt_of_le_of_lt hle hlast) hlast] at hu
  cases hu
  rw [← map_toLexeme_significantTokens, significantTokens, textOf, ofDocument]
  simp only [hslice, List.filter_map, List.map_map]
  -- the shift does not change lexemes, and which tokens are left out first does not matter
  exact congrArg (List.map Token.toLexeme) (List.filter_comm _ _ _)

end Navigator

/-! ### Statements that are expressions -/

namespace Statement

/-- Read by itself, a statement is one expression, in which no list is open and no token is
stray. -/
def IsExpression (s : Text) : Prop :=
  ∃ e, Expr.ofText s = .ok [e] ∧ e.Closed ∧ ∀ t, .stray t ∉ e.parts

/-- The kinds of the tokens of a text that carry structure. -/
def kindsOf (s : Text) : List TokenKind := (Lexeme.significant (lexemes s)).map (·.kind)

theorem kindsOf_eq {s : Text} {e : Expr} (h : Expr.ofText s = .ok [e]) : kindsOf s = e.kinds := by
  rw [kindsOf, ← map_toLexeme_significantTokens, Expr.significantTokens_eq_tokens h, List.map_map]
  rfl

/-- **A statement is one expression** exactly if it is complete as one, and its marks quote. -/
theorem isExpression_iff {s : Text} :
    IsExpression s ↔
      (∃ e, Expr.ofText s = .ok [e] ∧ e.complete = true) ∧ marksQuote (kindsOf s) = true := by
  have hwhole {e : Expr} (he : Expr.ofText s = .ok [e]) (hc : e.complete = true) : e.Whole := by
    obtain ⟨es, hes, -, hparsed⟩ := Expr.exists_parsed s
    obtain rfl := Except.ok.inj (he.symm.trans hes)
    exact (hparsed.built e (List.mem_singleton_self e)).whole hc
  constructor
  · rintro ⟨e, he, hclosed, hstray⟩
    have hc := hclosed.complete hstray
    exact ⟨⟨e, he, hc⟩, kindsOf_eq he ▸ (hwhole he hc).marksQuote_iff.mpr hstray⟩
  · rintro ⟨⟨e, he, hc⟩, hquote⟩
    have hw := hwhole he hc
    rw [kindsOf_eq he, hw.marksQuote_iff] at hquote
    exact ⟨e, he, Expr.Finished.closed (.inl hw), hquote⟩

end Statement

namespace Navigator

section Unit

variable {n : Nat} {u : Span}
  (hafter : Span.after ((significantTokens d.text).map (·.kind)) n = some u)
  (hu : u.sexp (significantTokens d.text) = some sexp)
include hafter hu

/-- The tokens of a unit are marks alone, or those of a complete expression. -/
theorem unitTokens_tokensIn : Span.UnitTokens (sexp.tokensIn d.text) := by
  obtain ⟨hfirst, hle, hlast⟩ := Span.after_eq_some hafter
  rw [List.length_map] at hlast
  obtain ⟨us, hstands, hus⟩ := Span.exists_unitTokens_of_after hafter
  have hin := (ordered_significantTokens d.text).filter_of_standsAt hstands (by omega) hlast
  rw [Span.sexp_eq_some (by omega) hlast] at hu
  cases hu
  rw [Sexp.tokensIn, hin]
  exact hus

/-- **When a unit is an expression**: its statement is one exactly if each mark in the unit has
something behind it in the unit that it can quote. -/
theorem isExpression_iff {s : Text}
    (hs : Statement.collapse ((ofDocument d maxSteps).textOf sexp) = .ok s) :
    Statement.IsExpression s ↔ marksQuote ((sexp.tokensIn d.text).map (·.kind)) = true := by
  obtain ⟨hfirst, hle, hlast⟩ := Span.after_eq_some hafter
  rw [List.length_map] at hlast
  -- the tokens of the statement mean what those of the unit mean
  have hkeeps := Statement.keepsMeaning_of_collapse hs
  rw [significant_lexemes_textOf hu (by omega) hlast] at hkeeps
  have hkinds : Statement.kindsOf s = (sexp.tokensIn d.text).map (·.kind) := by
    have hmap := List.forall₂_map_left_iff.mpr
      (List.forall₂_map_right_iff.mpr (hkeeps.imp fun _ _ h => h.kind_eq.symm))
    rw [List.forall₂_eq_eq_eq] at hmap
    rw [Statement.kindsOf, ← hmap, List.map_map]
    rfl
  rw [Statement.isExpression_iff, hkinds, and_iff_right_iff_imp]
  intro hquote
  have hunit := unitTokens_tokensIn hafter hu
  generalize sexp.tokensIn d.text = us at hunit hquote hkeeps
  cases hunit with
  | marks hne hm =>
    rw [marksQuote_of_all_marks (by simpa using hne) (by simpa using hm)] at hquote
    cases hquote
  | @whole e he =>
    rw [← map_toLexeme_significantTokens, List.forall₂_map_left_iff,
      List.forall₂_map_right_iff] at hkeeps
    obtain ⟨fs, hfs, hcorr⟩ := Expr.exists_parseMany_of_corresponds Lexeme.structural_keepsMeaning
      hkeeps (Expr.parseMany_tokens (.inl (.inl he)))
    obtain ⟨f, _, hf, hnil, rfl⟩ := List.forall₂_cons_left_iff.mp hcorr
    cases hnil
    rw [Expr.parseMany_significantTokens] at hfs
    exact ⟨f, hfs, hf.complete_eq.trans he.complete⟩

end Unit

/-! ### The units of a region -/

/-- The first unit of a region is the one that a motion from its start goes over. -/
theorem forwardSexp_of_unitsUpTo {nav : Navigator} {stop offset : Int} {steps : Nat}
    {rest : List Sexp} (h : sexp :: rest <+: nav.unitsUpTo stop steps offset) :
    nav.forwardSexp offset = some sexp := by
  cases steps with
  | zero => simp [unitsUpTo] at h
  | succ steps =>
    rw [unitsUpTo] at h
    split at h
    · simp at h
    · next first hfirst =>
      split at h
      · simp at h
      · rw [List.cons_prefix_cons] at h
        rw [hfirst, h.1]

section Shows

variable {nav : Navigator} {ts : List Token} (h : nav.Shows ts) {stop offset : Int} {steps : Nat}
include h

/-- A motion goes over a unit of the tokens, which is the first one behind the offset or around
it. -/
theorem Shows.exists_span_of_forwardSexp (hu : nav.forwardSexp offset = some sexp) :
    ∃ u, Span.after (ts.map (·.kind)) (countEnded ts offset) = some u ∧ u.sexp ts = some sexp := by
  rw [h.forwardSexp_eq, Option.bind_eq_some_iff] at hu
  exact hu

theorem Shows.range_of_forwardSexp (hu : nav.forwardSexp offset = some sexp) :
    ∃ last, ∃ (hf : countEnded ts offset < ts.length) (hl : last < ts.length),
      countEnded ts offset ≤ last ∧
        sexp.range = ⟨ts[countEnded ts offset].start, ts[last].stop⟩ := by
  obtain ⟨u, hafter, hsexp⟩ := h.exists_span_of_forwardSexp hu
  obtain ⟨hfirst, hle, hlast⟩ := Span.after_eq_some hafter
  rw [List.length_map] at hlast
  rw [Span.sexp_eq_some (by omega) hlast] at hsexp
  cases hsexp
  exact ⟨u.last, by omega, hlast, hle, by simp only [hfirst]⟩

/-- The units of a region are units of the tokens, and end in the region. -/
theorem Shows.of_mem_unitsUpTo (hu : sexp ∈ nav.unitsUpTo stop steps offset) :
    (∃ n u, Span.after (ts.map (·.kind)) n = some u ∧ u.sexp ts = some sexp) ∧
      sexp.range.stop ≤ stop := by
  induction steps generalizing offset with
  | zero => cases hu
  | succ steps ih =>
    rw [unitsUpTo] at hu
    split at hu
    · cases hu
    · next first hfirst =>
      split at hu
      · cases hu
      · next hstop =>
        rcases List.mem_cons.mp hu with rfl | hu
        · exact ⟨⟨_, h.exists_span_of_forwardSexp hfirst⟩, Int.not_lt.mp hstop⟩
        · exact ih hu

/-- No token lies around the place where another one stops. -/
theorem Shows.not_around_stop {i : Nat} (hi : i < ts.length) :
    ∀ t ∈ ts, ¬ (t.start < ts[i].stop ∧ ts[i].stop < t.stop) := by
  rintro t ht ⟨hlt, hgt⟩
  obtain ⟨j, hj, rfl⟩ := List.getElem_of_mem ht
  rcases Nat.lt_or_ge i j with hij | hij
  · have := h.ordered.stop_le_start hij hj
    omega
  · have := h.ordered.stop_le_stop hij hi
    omega

/-- From a place that no token lies around, all units start there or behind it. -/
theorem Shows.le_start_of_mem_unitsUpTo
    (hno : ∀ t ∈ ts, ¬ (t.start < offset ∧ offset < t.stop))
    (hu : sexp ∈ nav.unitsUpTo stop steps offset) : offset ≤ sexp.range.start := by
  induction steps generalizing offset with
  | zero => cases hu
  | succ steps ih =>
    rw [unitsUpTo] at hu
    split at hu
    · cases hu
    · next first hfirst =>
      split at hu
      · cases hu
      · obtain ⟨last, hf, hl, hle, hrange⟩ := h.range_of_forwardSexp hfirst
        -- the first token of the unit ends behind the offset, so it starts there or behind it
        have hends := h.ordered.lt_countEnded_iff hf offset
        have hnot := hno _ (List.getElem_mem hf)
        have hstart : offset ≤ first.range.start := by
          rw [hrange]
          simp only
          omega
        rcases List.mem_cons.mp hu with rfl | hu
        · exact hstart
        · have hlt := h.ordered.start_lt_stop_of_le hle hl
          have hrest := ih (by rw [hrange]; exact h.not_around_stop hl) hu
          rw [hrange] at hstart hrest
          simp only at hstart hrest
          omega

/-- From inside a token a motion goes over the unit that begins with it. -/
theorem Shows.start_of_forwardSexp {t : Token} (ht : t ∈ ts) (hlt : t.start < offset)
    (hgt : offset < t.stop) (hu : nav.forwardSexp offset = some sexp) :
    sexp.range.start = t.start := by
  obtain ⟨i, hi, rfl⟩ := List.getElem_of_mem ht
  have hcount : countEnded ts offset = i :=
    h.ordered.countEnded_within hi (Int.le_of_lt hlt) hgt
  obtain ⟨last, hf, hl, -, hrange⟩ := h.range_of_forwardSexp hu
  rw [hrange]
  simp only [hcount]

/-- **When the units of a region start in it**: exactly if it does not start inside a token. -/
theorem Shows.forall_start_le_iff {sent : List Sexp}
    (hsent : sent <+: nav.unitsUpTo stop steps offset) :
    (∀ u ∈ sent, offset ≤ u.range.start) ↔
      (sent ≠ [] → ∀ t ∈ ts, ¬ (t.start < offset ∧ offset < t.stop)) := by
  constructor
  · rintro hall hne t ht ⟨hlt, hgt⟩
    obtain ⟨u, rest, rfl⟩ := List.exists_cons_of_ne_nil hne
    have := hall u (by simp)
    rw [h.start_of_forwardSexp ht hlt hgt (forwardSexp_of_unitsUpTo hsent)] at this
    omega
  · intro hno u hu
    exact h.le_start_of_mem_unitsUpTo (hno (List.ne_nil_of_mem hu)) (hsent.subset hu)

end Shows

end Navigator

namespace Channel

/-- The units of a region that are sent, as many as lines are written. -/
def regionUnits (c : Channel) (d : Document) (start stop : Int) : List Sexp :=
  ((Navigator.ofDocument d Navigator.defaultMaxSteps).unitsUpTo stop Navigator.defaultMaxSteps
    start).take (written (c.evaluateRegion d start stop).2.2).length

/-- **When a region is sent as whole expressions.** The lines that are written are the statements of
the units that are sent, which are all units of the region if the channel stays open. They are in the
region and one expression each, without stray tokens and open lists, exactly if the region does not
start inside a token and each mark in a unit has something behind it in the unit that it can
quote. -/
theorem region_statements_iff (c : Channel) (d : Document) (start stop : Int) :
    let nav := Navigator.ofDocument d Navigator.defaultMaxSteps
    (c.evaluateRegion d start stop).2.1 = .ok (c.regionUnits d start stop).length ∧
      List.Forall₂ (fun u line => ∃ s, Statement.collapse (nav.textOf u) = .ok s ∧
          line = s ++ [lineFeed])
        (c.regionUnits d start stop) (written (c.evaluateRegion d start stop).2.2) ∧
      ((c.evaluateRegion d start stop).1.isOpen = true →
        c.regionUnits d start stop = nav.unitsUpTo stop nav.maxSteps start) ∧
      ((∀ u ∈ c.regionUnits d start stop, start ≤ u.range.start ∧ u.range.stop ≤ stop ∧
          ∃ s, Statement.collapse (nav.textOf u) = .ok s ∧ Statement.IsExpression s) ↔
        (c.regionUnits d start stop ≠ [] →
          ∀ t ∈ significantTokens d.text, ¬ (t.start < start ∧ start < t.stop)) ∧
        ∀ u ∈ c.regionUnits d start stop,
          marksQuote ((u.tokensIn d.text).map (·.kind)) = true) := by
  intro nav
  have hshows : nav.Shows (significantTokens d.text) := Navigator.shows_ofDocument d _
  have hcollapse {offset : Int} {u : Sexp} (hu : nav.forwardSexp offset = some u) :
      ∃ s, Statement.collapse (nav.textOf u) = .ok s := Navigator.exists_collapse_textOf (.inl hu)
  obtain ⟨-, sent, hpre, hcount, hlines, hall⟩ :=
    evaluateFrom_spec hcollapse c stop nav.maxSteps start
  have hsent : c.regionUnits d start stop = sent := by
    have htake := List.prefix_iff_eq_take.mp hpre
    rw [hlines.length_eq] at htake
    exact htake.symm
  rw [hsent]
  refine ⟨hcount, hlines, hall, ?_⟩
  rw [← hshows.forall_start_le_iff hpre, ← forall₂_and]
  refine forall₂_congr fun u hu => and_congr_right fun _ => ?_
  obtain ⟨⟨n, v, hafter, hsexp⟩, hstop⟩ := hshows.of_mem_unitsUpTo (hpre.subset hu)
  obtain ⟨hfirst, hle, hlast⟩ := Span.after_eq_some hafter
  obtain ⟨s, hs⟩ : ∃ s, Statement.collapse (nav.textOf u) = .ok s :=
    Navigator.exists_collapse_of_span hsexp (by omega) (by simpa using hlast)
  rw [← Navigator.isExpression_iff hafter hsexp hs, and_iff_right hstop]
  constructor
  · rintro ⟨r, hr, hexpr⟩
    obtain rfl := Except.ok.inj (hs.symm.trans hr)
    exact hexpr
  · exact fun hexpr => ⟨s, hs, hexpr⟩

/-- **Regions that are sent in parts**: one that starts inside a token, which is sent as a whole,
and one that ends with a mark, which is no expression. -/
theorem region_sends_parts :
    (¬ ∀ (c : Channel) (d : Document) (start stop : Int), 0 ≤ start → start ≤ stop →
      ∀ u ∈ c.regionUnits d start stop, start ≤ u.range.start ∧ u.range.stop ≤ stop) ∧
    ¬ ∀ (c : Channel) (d : Document) (start stop : Int), 0 ≤ start → start ≤ stop →
      ∀ u ∈ c.regionUnits d start stop, ∀ s, Statement.collapse
          ((Navigator.ofDocument d Navigator.defaultMaxSteps).textOf u) = .ok s →
        Statement.IsExpression s := by
  constructor
  · intro h
    have hunit := (h opened (Document.ofText (Text.ofString "foo bar")) 1 7 (by decide) (by decide)
      ⟨⟨0, 3⟩, none, none⟩ (by decide +kernel)).1
    revert hunit
    decide
  · intro h
    have hexpr := h opened (Document.ofText (Text.ofString "a '")) 0 3 (by decide) (by decide)
      ⟨⟨2, 3⟩, none, none⟩ (by decide +kernel) (Text.ofString "'") (by decide +kernel)
    have hquote := (Statement.isExpression_iff.mp hexpr).2
    revert hquote
    decide +kernel

end Channel

end SexpEditing
