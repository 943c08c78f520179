import SexpEditing.Evaluator.Channel
import SexpEditing.Proofs.Evaluator.Quoting
import SexpEditing.Proofs.Sexp.Span
import SexpEditing.Proofs.Token.Pieces

/-!
# The conduct of a channel

Whatever is asked of a channel, and whatever happens to its stream meanwhile, it writes whole lines,
one statement on each; after it was closed, from either side, it writes nothing; and it ends the
stream at most once. Each of these holds of every single action, and so of every history. What a
request is answered tells how many lines were written for it.

## Main definitions

* `Navigator.unitsUpTo`: the units from an offset on that end up to another one
* `Channel.written`: what was written by some actions
* `Channel.Conduct`: how a channel behaves between two states
* `Channel.Episode`, `Channel.episodes`: what happens in a history, one occurrence after the other
* `Channel.Answered`: the answer to a request fits the lines that were written for it

## Main results

* `Navigator.exists_collapse_textOf`: the units of a document are statements
* `Channel.pieces_are_statements`: pieces of a text, its units, and the statements of a region
* `Channel.request_spec`, `Channel.conduct_step`: one request, and one occurrence
* `Channel.episodes_conduct`: every history
-/

namespace SexpEditing

open CodeUnit

/-! ### Statements are lines -/

namespace Statement

theorem lineFeed_not_mem_print (t : Text) : lineFeed ∉ print t := by
  intro h
  exact absurd (isLayout_of_mem_print h) (by decide)

theorem lineFeed_not_mem_collapse {code r : Text} (h : collapse code = .ok r) : lineFeed ∉ r := by
  obtain ⟨-, rfl⟩ := collapse_eq_ok_iff.mp h
  exact lineFeed_not_mem_join _ _ _

theorem echo_eq_error_iff {code : Text} {e : StatementError} :
    echo code = .error e ↔ collapse code = .error e := by
  rw [echo]
  cases collapse code <;> simp [bind, Except.bind, pure, Except.pure]

theorem lineFeed_not_mem_echo {code : Text} {ss : List Text} (h : echo code = .ok ss) :
    ∀ s ∈ ss, lineFeed ∉ s := by
  obtain ⟨r, hr, rfl⟩ := echo_eq_ok_iff.mp h
  intro s hs
  simp only [List.mem_cons, List.not_mem_nil, or_false] at hs
  rcases hs with rfl | rfl
  · exact lineFeed_not_mem_print r
  · simp only [List.mem_append, not_or]
    exact ⟨⟨by decide, lineFeed_not_mem_collapse hr⟩, by decide⟩

end Statement

/-! ### Units are statements -/

/-- The places of two significant tokens among all tokens of a text. -/
theorem exists_tokenize_indices {t : Text} {first last : Nat} (hle : first ≤ last)
    (hlast : last < (significantTokens t).length) :
    ∃ (i j : Nat) (hi : i < (tokenize t).length) (hj : j < (tokenize t).length), i ≤ j ∧
      (tokenize t)[i] = (significantTokens t)[first] ∧
      (tokenize t)[j] = (significantTokens t)[last] := by
  have horder := (Token.ordered_significantTokens t).start_lt_stop_of_le hle hlast
  have hmem (n : Nat) (hn : n < (significantTokens t).length) :
      (significantTokens t)[n] ∈ tokenize t :=
    (List.mem_filter.mp (List.getElem_mem hn)).1
  obtain ⟨i, hi, hfirst⟩ := List.getElem_of_mem (hmem first (Nat.lt_of_le_of_lt hle hlast))
  obtain ⟨j, hj, hstop⟩ := List.getElem_of_mem (hmem last hlast)
  refine ⟨i, j, hi, hj, ?_, hfirst, hstop⟩
  by_contra hji
  have hbefore := (Token.ordered_tokenize t).stop_le_start (Nat.lt_of_not_le hji) hi
  rw [hfirst, hstop] at hbefore
  omega

namespace Navigator

variable {d : Document} {maxSteps : Nat} {offset : Int} {sexp : Sexp}

/-- A unit is a piece of the document, from one of its tokens to another. -/
theorem exists_collapse_of_span {u : Span} (hu : u.sexp (significantTokens d.text) = some sexp)
    (hle : u.first ≤ u.last) (hlast : u.last < (significantTokens d.text).length) :
    ∃ s, Statement.collapse ((ofDocument d maxSteps).textOf sexp) = .ok s := by
  obtain ⟨i, j, hi, hj, hij, hfirst, hstop⟩ := exists_tokenize_indices hle hlast
  have hcover := tokensEnd_slice hi hj hij
  rw [hfirst, hstop, ← Document.readRange_eq_slice] at hcover
  rw [Span.sexp_eq_some (Nat.lt_of_le_of_lt hle hlast) hlast] at hu
  cases hu
  exact ⟨_, Statement.collapse_eq_ok_iff.mpr ⟨Int.not_lt.mpr (Int.le_of_eq hcover.symm), rfl⟩⟩

/-- **The units of a document** can be collapsed: their tokens cover them. -/
theorem exists_collapse_textOf
    (h : (ofDocument d maxSteps).forwardSexp offset = some sexp ∨
      (ofDocument d maxSteps).backwardSexp offset = some sexp) :
    ∃ s, Statement.collapse ((ofDocument d maxSteps).textOf sexp) = .ok s := by
  rcases h with h | h
  · rw [(shows_ofDocument d maxSteps).forwardSexp_eq, Option.bind_eq_some_iff] at h
    obtain ⟨u, hu, hsexp⟩ := h
    obtain ⟨hfirst, hle, hlast⟩ := Span.after_eq_some hu
    exact exists_collapse_of_span hsexp (hfirst ▸ hle) (by simpa using hlast)
  · rw [(shows_ofDocument d maxSteps).backwardSexp_eq, Option.bind_eq_some_iff] at h
    obtain ⟨u, hu, hsexp⟩ := h
    obtain ⟨hle, -, hlast⟩ := Span.before_eq_some hu
    exact exists_collapse_of_span hsexp hle (by simpa using hlast)

/-- The units from an offset on, at most `steps`, up to the first one that does not end by
`stop`. -/
def unitsUpTo (nav : Navigator) (stop : Int) : (steps : Nat) → (offset : Int) → List Sexp
  | 0, _ => []
  | steps + 1, offset =>
    match nav.forwardSexp offset with
    | none => []
    | some u => if stop < u.range.stop then [] else u :: unitsUpTo nav stop steps u.range.stop

end Navigator

namespace Channel

/-! ### Single actions -/

/-- What was written by some actions. -/
def written (actions : List ChannelAction) : List Text :=
  actions.filterMap fun
    | .write text => some text
    | .log _ | .endStream => none

@[simp] theorem written_append (as bs : List ChannelAction) :
    written (as ++ bs) = written as ++ written bs :=
  List.filterMap_append

/-- **The conduct of a channel** between two states: it writes statements, each on a line; if it is
not open it stays so, and writes nothing; and if it ends the stream it was not closed before, and is
closed then. -/
structure Conduct (c d : Channel) (actions : List ChannelAction) : Prop where
  framed : ∃ statements : List Text, (∀ s ∈ statements, lineFeed ∉ s) ∧
    written actions = statements.map (· ++ [lineFeed])
  shut : c.isOpen = false → d.isOpen = false ∧ written actions = []
  ending : actions.count .endStream + c.closed.toNat ≤ d.closed.toNat

variable {c d e : Channel} {as bs : List ChannelAction}

theorem Conduct.refl (c : Channel) : Conduct c c [] :=
  ⟨⟨[], by simp, rfl⟩, fun h => ⟨h, rfl⟩, by simp⟩

/-- One after the other. -/
theorem Conduct.trans (h : Conduct c d as) (h' : Conduct d e bs) : Conduct c e (as ++ bs) where
  framed := by
    obtain ⟨ss, hss, hwritten⟩ := h.framed
    obtain ⟨ts, hts, hwritten'⟩ := h'.framed
    refine ⟨ss ++ ts, fun s hs => ?_, by rw [written_append, hwritten, hwritten', List.map_append]⟩
    rcases List.mem_append.mp hs with hs | hs
    · exact hss s hs
    · exact hts s hs
  shut hc := by
    obtain ⟨hd, has⟩ := h.shut hc
    obtain ⟨he, hbs⟩ := h'.shut hd
    exact ⟨he, by rw [written_append, has, hbs, List.append_nil]⟩
  ending := by
    have hending := h.ending
    have hending' := h'.ending
    rw [List.count_append]
    omega

theorem written_notice (c : Channel) (e : Event) : written (c.notice e).2 = [] := by
  cases e <;> rfl

theorem conduct_notice (c : Channel) (e : Event) : Conduct c (c.notice e).1 (c.notice e).2 where
  framed := ⟨[], by simp, written_notice c e⟩
  shut h := ⟨by cases e <;> simp_all [notice, isOpen], written_notice c e⟩
  ending := by
    have hle := Bool.toNat_le c.closed
    cases e <;> simp [notice, hle]

theorem written_noticeAll (c : Channel) (es : List Event) : written (c.noticeAll es).2 = [] := by
  induction es generalizing c with
  | nil => rfl
  | cons e es ih =>
    rw [noticeAll, written_append, written_notice, ih]
    rfl

theorem conduct_noticeAll (c : Channel) (es : List Event) :
    Conduct c (c.noticeAll es).1 (c.noticeAll es).2 := by
  induction es generalizing c with
  | nil => exact .refl c
  | cons e es ih => exact (conduct_notice c e).trans (ih (c.notice e).1)

/-! ### Sending -/

/-- **One statement**: an open channel writes it on a line, and any other one does nothing. -/
theorem send_cases (c : Channel) {s : Text} (hs : lineFeed ∉ s) :
    (c.isOpen = true ∧ ∃ d actions, c.send s = (d, true, actions) ∧ Conduct c d actions ∧
        written actions = [s ++ [lineFeed]]) ∨
      (c.isOpen = false ∧ ∃ actions, c.send s = (c, false, actions) ∧ Conduct c c actions ∧
        written actions = []) := by
  rw [send]
  cases hopen : c.isOpen with
  | false =>
    refine .inr ⟨rfl, _, rfl, ⟨⟨[], by simp, rfl⟩, fun h => ⟨h, rfl⟩, ?_⟩, rfl⟩
    simp
  | true =>
    -- the line itself changes nothing, what happens to the stream meanwhile does
    have hmeanwhile :=
      conduct_noticeAll { c with arrivals := c.arrivals.tail } (c.arrivals.headD [])
    have hquiet := written_noticeAll { c with arrivals := c.arrivals.tail } (c.arrivals.headD [])
    have hwritten := congrArg (List.cons (s ++ [lineFeed])) hquiet
    refine .inl ⟨rfl, _, _, rfl, ⟨⟨[s], by simpa using hs, hwritten⟩, fun h => ?_, ?_⟩, hwritten⟩
    · exact absurd (hopen.symm.trans h) (by decide)
    · simpa [writeLine] using hmeanwhile.ending

/-- Of some statements those at the front were sent: the answer tells whether all of them were, and
an open channel sends the first one. -/
structure Sent (c : Channel) (statements : List Text) (whole : Bool) (lines : List Text) :
    Prop where
  lines_front : lines <+: statements.map (· ++ [lineFeed])
  whole_iff : whole = true ↔ lines.length = statements.length
  lines_ne_nil_iff : lines ≠ [] ↔ statements ≠ [] ∧ c.isOpen = true

theorem send_spec (c : Channel) {s : Text} (hs : lineFeed ∉ s) :
    Conduct c (c.send s).1 (c.send s).2.2 ∧
      Sent c [s] (c.send s).2.1 (written (c.send s).2.2) := by
  rcases send_cases c hs with
    ⟨hopen, d, actions, hsend, hconduct, hwritten⟩ | ⟨hshut, actions, hsend, hconduct, hwritten⟩
  · rw [hsend]
    exact ⟨hconduct, by simp [hwritten], by simp [hwritten], by simp [hwritten, hopen]⟩
  · rw [hsend]
    exact ⟨hconduct, by simp [hwritten], by simp [hwritten], by simp [hwritten, hshut]⟩

theorem sendAll_spec (c : Channel) {ss : List Text} (hss : ∀ s ∈ ss, lineFeed ∉ s) :
    Conduct c (c.sendAll ss).1 (c.sendAll ss).2.2 ∧
      Sent c ss (c.sendAll ss).2.1 (written (c.sendAll ss).2.2) := by
  induction ss generalizing c with
  | nil => exact ⟨.refl c, List.nil_prefix, by simp [sendAll, written], by simp [sendAll, written]⟩
  | cons s ss ih =>
    rw [sendAll]
    rcases send_cases c (hss s (by simp)) with
      ⟨hopen, d, actions, hsend, hconduct, hwritten⟩ | ⟨hshut, actions, hsend, hconduct, hwritten⟩
    · obtain ⟨hrest, hsent⟩ := ih d fun t ht => hss t (by simp [ht])
      simp only [hsend]
      refine ⟨hconduct.trans hrest, ?_, ?_, ?_⟩
      · simpa [hwritten] using hsent.lines_front
      · simpa [hwritten] using hsent.whole_iff
      · simp [hwritten, hopen]
    · simp only [hsend]
      exact ⟨hconduct, by simp [hwritten], by simp [hwritten], by simp [hwritten, hshut]⟩

/-- **The units of a region**, if all of them can be collapsed: those at the front are written as
statements, as many as the answer says, and all of them if the channel stays open. -/
theorem evaluateFrom_spec {nav : Navigator}
    (hnav : ∀ {offset sexp}, nav.forwardSexp offset = some sexp →
      ∃ s, Statement.collapse (nav.textOf sexp) = .ok s)
    (c : Channel) (stop : Int) (steps : Nat) (offset : Int) :
    Conduct c (c.evaluateFrom nav stop steps offset).1 (c.evaluateFrom nav stop steps offset).2.2 ∧
      ∃ sent, sent <+: nav.unitsUpTo stop steps offset ∧
        (c.evaluateFrom nav stop steps offset).2.1 = .ok sent.length ∧
        List.Forall₂ (fun u line => ∃ s, Statement.collapse (nav.textOf u) = .ok s ∧
          line = s ++ [lineFeed]) sent (written (c.evaluateFrom nav stop steps offset).2.2) ∧
        ((c.evaluateFrom nav stop steps offset).1.isOpen = true →
          sent = nav.unitsUpTo stop steps offset) := by
  induction steps generalizing c offset with
  | zero => exact ⟨.refl c, [], List.nil_prefix, rfl, .nil, fun _ => rfl⟩
  | succ steps ih =>
    rw [evaluateFrom, Navigator.unitsUpTo]
    cases hsexp : nav.forwardSexp offset with
    | none => exact ⟨.refl c, [], List.nil_prefix, rfl, .nil, fun _ => rfl⟩
    | some sexp =>
      by_cases hstop : stop < sexp.range.stop
      · simp only [if_pos hstop]
        exact ⟨.refl c, [], List.nil_prefix, rfl, .nil, fun _ => rfl⟩
      · obtain ⟨s, hs⟩ := hnav hsexp
        have heval : c.evaluate (nav.textOf sexp) = .ok (c.send s) := by
          rw [evaluate, hs]
          rfl
        simp only [if_neg hstop, heval]
        rcases send_cases c (Statement.lineFeed_not_mem_collapse hs) with
          ⟨-, d, actions, hsend, hconduct, hwritten⟩ |
            ⟨hshut, actions, hsend, hconduct, hwritten⟩
        · obtain ⟨hrest, sent, hpre, hcount, hlines, hall⟩ := ih d sexp.range.stop
          simp only [hsend]
          refine ⟨hconduct.trans hrest, sexp :: sent, List.cons_prefix_cons.mpr ⟨rfl, hpre⟩,
            ?_, ?_, fun hopen => ?_⟩
          · rw [hcount]
            rfl
          · rw [written_append, hwritten]
            exact .cons ⟨s, hs, rfl⟩ hlines
          · rw [hall hopen]
        · simp only [hsend]
          refine ⟨hconduct, [], List.nil_prefix, rfl, ?_, fun hopen => ?_⟩
          · rw [hwritten]
            exact .nil
          · rw [hshut] at hopen
            cases hopen

theorem evaluateRegion_spec (c : Channel) (d : Document) (start stop : Int) :
    Conduct c (c.evaluateRegion d start stop).1 (c.evaluateRegion d start stop).2.2 ∧
      (c.evaluateRegion d start stop).2.1 =
        .ok (written (c.evaluateRegion d start stop).2.2).length := by
  obtain ⟨hconduct, sent, -, hcount, hlines, -⟩ :=
    evaluateFrom_spec (fun h => Navigator.exists_collapse_textOf (.inl h)) c stop _ start
  exact ⟨hconduct, hcount.trans (congrArg Except.ok hlines.length_eq)⟩

/-- **Pieces of a text are read as in it.** Of a piece from the start of one token to the end of
another the tokens are those that stand there, and they cover it. So every unit that is found by
going forward or backward can be collapsed, and the statements of a region are never refused. -/
theorem pieces_are_statements :
    (∀ (t : Text) (i j : Nat) (hi : i < (tokenize t).length) (hj : j < (tokenize t).length),
      i ≤ j →
        tokenize (t.slice (tokenize t)[i].start (tokenize t)[j].stop) =
            ((tokenize t).extract i (j + 1)).map (Token.shift (-(tokenize t)[i].start)) ∧
          ((tokenize (t.slice (tokenize t)[i].start (tokenize t)[j].stop)).flatMap
              fun u => u.text) =
            t.slice (tokenize t)[i].start (tokenize t)[j].stop) ∧
      (∀ (d : Document) (maxSteps : Nat) (offset : Int) (sexp : Sexp),
        (Navigator.ofDocument d maxSteps).forwardSexp offset = some sexp ∨
          (Navigator.ofDocument d maxSteps).backwardSexp offset = some sexp →
        ∃ s, Statement.collapse ((Navigator.ofDocument d maxSteps).textOf sexp) = .ok s) ∧
      ∀ (c : Channel) (d : Document) (start stop : Int),
        ∃ n, (c.evaluateRegion d start stop).2.1 = .ok n := by
  refine ⟨fun t i j hi hj hij =>
      ⟨tokenize_slice hi hj hij, flatMap_text_tokenize_slice hi hj hij⟩,
    fun d maxSteps offset sexp h => Navigator.exists_collapse_textOf h, fun c d start stop => ?_⟩
  exact ⟨_, (evaluateRegion_spec c d start stop).2⟩

/-- An atom that is cut off before a comment, and the quoted list behind the comment. -/
theorem pieces_are_statements_quoted :
    tokenize (Text.ofString "a") = [⟨⟨.atom, Text.ofString "a"⟩, ⟨0, 1⟩⟩] ∧
      ∃ s, Statement.collapse (Text.ofString "'(b)") = .ok s := by
  obtain ⟨hcut, hunits, -⟩ := pieces_are_statements
  constructor
  · have hlt : 0 < (tokenize (Text.ofString "a/**/'(b)")).length := by decide +kernel
    have hone := (hcut (Text.ofString "a/**/'(b)") 0 0 hlt hlt (Nat.le_refl 0)).1
    have hpiece : (Text.ofString "a/**/'(b)").slice (tokenize (Text.ofString "a/**/'(b)"))[0].start
        (tokenize (Text.ofString "a/**/'(b)"))[0].stop = Text.ofString "a" := by
      decide +kernel +revert
    rw [hpiece] at hone
    exact hone.trans (by decide +kernel +revert)
  · have hquoted := hunits (Document.ofText (Text.ofString "a/**/'(b)")) 10 1
      ⟨⟨5, 9⟩, some ⟨⟨.opener, Text.ofString "("⟩, ⟨6, 7⟩⟩,
        some ⟨⟨.closer, Text.ofString ")"⟩, ⟨8, 9⟩⟩⟩ (.inl (by decide +kernel))
    exact hquoted

theorem conduct_close (c : Channel) : Conduct c c.close.1 c.close.2 := by
  rw [close]
  cases hc : c.closed with
  | true => exact .refl c
  | false => exact ⟨⟨[], by simp, rfl⟩, fun _ => ⟨rfl, rfl⟩, by simp [hc]⟩

theorem written_close (c : Channel) : written c.close.2 = [] := by
  rw [close]
  cases c.closed <;> rfl

/-! ### Requests -/

/-- A request was answered as the lines tell that were written for it. Only code that cannot be
collapsed is refused. -/
def Answered (c : Channel) : Request → Answer → List Text → Prop
  | .print text, .sent whole, lines => Sent c [Statement.print text] whole lines
  | .evaluate code, .sent whole, lines =>
    ∃ s, Statement.collapse code = .ok s ∧ Sent c [s] whole lines
  | .echo code, .sent whole, lines =>
    ∃ s t, Statement.echo code = .ok [s, t] ∧ Sent c [s, t] whole lines
  | .evaluate code, .refused e, lines => Statement.collapse code = .error e ∧ lines = []
  | .echo code, .refused e, lines => Statement.collapse code = .error e ∧ lines = []
  | .region _ _ _, .count n, lines => n = lines.length
  | .close, .nothing, lines => lines = []
  | _, _, _ => False

/-- **One request.** -/
theorem request_spec (c : Channel) (r : Request) :
    Conduct c (c.request r).1 (c.request r).2.2 ∧
      Answered c r (c.request r).2.1 (written (c.request r).2.2) := by
  cases r with
  | print text => exact send_spec c (Statement.lineFeed_not_mem_print text)
  | evaluate code =>
    cases h : Statement.collapse code with
    | error e =>
      simp only [request, evaluate, h, Except.map]
      exact ⟨.refl c, h, rfl⟩
    | ok s =>
      obtain ⟨hconduct, hsent⟩ := send_spec c (Statement.lineFeed_not_mem_collapse h)
      simp only [request, evaluate, h, Except.map]
      exact ⟨hconduct, s, h, hsent⟩
  | echo code =>
    cases h : Statement.echo code with
    | error e =>
      simp only [request, echoEvaluate, h, Except.map]
      exact ⟨.refl c, Statement.echo_eq_error_iff.mp h, rfl⟩
    | ok ss =>
      obtain ⟨hconduct, hsent⟩ := sendAll_spec c (Statement.lineFeed_not_mem_echo h)
      simp only [request, echoEvaluate, h, Except.map]
      obtain ⟨s, -, rfl⟩ := Statement.echo_eq_ok_iff.mp h
      exact ⟨hconduct, _, _, h, hsent⟩
  | region d start stop =>
    have hregion := evaluateRegion_spec c d start stop
    rw [request]
    rcases h : c.evaluateRegion d start stop with ⟨e, count, actions⟩
    rw [h] at hregion
    obtain ⟨hconduct, hcount⟩ := hregion
    have hcount : count = .ok (written actions).length := hcount
    subst hcount
    exact ⟨hconduct, rfl⟩
  | close => exact ⟨conduct_close c, written_close c⟩

/-! ### Histories -/

/-- One occurrence in a history of a channel. -/
structure Episode where
  before : Channel
  occurrence : Occurrence
  after : Channel
  answer : Answer
  actions : List ChannelAction

namespace Episode

/-- What was written. -/
def lines (x : Episode) : List Text := written x.actions

/-- A request was answered as the lines tell, and nothing was written about an event. -/
def Answered (x : Episode) : Prop :=
  match x.occurrence with
  | .request r => Channel.Answered x.before r x.answer x.lines
  | .event _ => x.lines = []

end Episode

/-- What happens to a channel, one occurrence after the other. -/
def episodes (c : Channel) : List Occurrence → List Episode
  | [] => []
  | o :: os =>
    let next := (c.step o).1
    ⟨c, o, next, (c.step o).2.1, (c.step o).2.2⟩ :: episodes next os

/-- **One occurrence**: the channel conducts itself. -/
theorem conduct_step (c : Channel) (o : Occurrence) :
    Conduct c (c.step o).1 (c.step o).2.2 := by
  cases o with
  | request r => exact (request_spec c r).1
  | event e => exact conduct_notice c e

theorem written_flatMap_actions (xs : List Episode) :
    written (xs.flatMap Episode.actions) = xs.flatMap Episode.lines := by
  rw [written, List.filterMap_flatMap]
  rfl

/-- **A history** is conducted as its occurrences are. -/
theorem exists_conduct_episodes (c : Channel) (os : List Occurrence) :
    ∃ d, Conduct c d ((c.episodes os).flatMap Episode.actions) := by
  induction os generalizing c with
  | nil => exact ⟨c, .refl c⟩
  | cons o os ih =>
    obtain ⟨d, hrest⟩ := ih (c.step o).1
    exact ⟨d, (conduct_step c o).trans hrest⟩

theorem answered_of_mem_episodes {os : List Occurrence} {x : Episode} (hx : x ∈ c.episodes os) :
    x.Answered := by
  induction os generalizing c with
  | nil => cases hx
  | cons o os ih =>
    rw [episodes] at hx
    rcases List.mem_cons.mp hx with rfl | hx
    · cases o with
      | request r => exact (request_spec c r).2
      | event e => exact written_notice c e
    · exact ih hx

/-- A channel that is not open stays so, and writes nothing any more. -/
theorem shut_of_mem_episodes (h : c.isOpen = false) {os : List Occurrence} {x : Episode}
    (hx : x ∈ c.episodes os) : x.after.isOpen = false ∧ x.lines = [] := by
  induction os generalizing c with
  | nil => cases hx
  | cons o os ih =>
    have hshut := (conduct_step c o).shut h
    rw [episodes] at hx
    rcases List.mem_cons.mp hx with rfl | hx
    · exact hshut
    · exact ih hshut.1 hx

theorem pairwise_episodes (c : Channel) (os : List Occurrence) :
    (c.episodes os).Pairwise fun x y =>
      x.after.isOpen = false → y.after.isOpen = false ∧ y.lines = [] := by
  induction os generalizing c with
  | nil => exact .nil
  | cons o os ih => exact .cons (fun y hy hshut => shut_of_mem_episodes hshut hy) (ih _)

/-- **Every history of a channel.** All that is written are statements without line feeds, each
followed by one. The answers tell how many lines were written: one if all is sent of a text or of
code, two if all is sent of code that is shown as well, and as many as units of a region are
counted; for code that is refused there are none. Once the channel is not open it stays so, and
nothing is written any more. The stream is ended at most once. -/
theorem episodes_conduct (c : Channel) (os : List Occurrence) :
    (∃ statements : List Text, (∀ s ∈ statements, lineFeed ∉ s) ∧
        (c.episodes os).flatMap Episode.lines = statements.map (· ++ [lineFeed])) ∧
      (∀ x ∈ c.episodes os, x.Answered) ∧
      (c.isOpen = false → ∀ x ∈ c.episodes os, x.after.isOpen = false ∧ x.lines = []) ∧
      ((c.episodes os).Pairwise fun x y =>
        x.after.isOpen = false → y.after.isOpen = false ∧ y.lines = []) ∧
      ((c.episodes os).flatMap Episode.actions).count .endStream ≤ 1 := by
  obtain ⟨d, hconduct⟩ := exists_conduct_episodes c os
  refine ⟨?_, fun x hx => answered_of_mem_episodes hx, fun h x hx => shut_of_mem_episodes h hx,
    pairwise_episodes c os, ?_⟩
  · rw [← written_flatMap_actions]
    exact hconduct.framed
  · have hending := hconduct.ending
    have hle := Bool.toNat_le d.closed
    omega

end Channel

end SexpEditing
