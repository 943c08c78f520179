import SexpEditing.Evaluator.Statement
import SexpEditing.Log.Basic
import SexpEditing.Sexp.Motion

/-!
# The channel to an evaluator

A channel sends statements to a running evaluator, one on a line. Nothing waits for replies. After
the channel was closed, from either side, nothing is sent any more.

The stream that a channel writes to may fail or be closed at any time: between two requests, or
while a line is being written. What the coming writes will bring is part of the state.

## Main definitions

* `Channel`: what a channel knows, and the state of its stream
* `Channel.Event`, `Channel.notice`: what may happen to the stream
* `Channel.send`, `Channel.sendAll`: one statement, and several until one is not sent
* `Channel.Request`, `Channel.step`: what is asked of a channel, and what it does
-/

namespace SexpEditing

open CodeUnit

/-- What happens to the stream of a channel. -/
inductive Channel.Event
  /-- The stream fails. -/
  | failed (message : Text)
  /-- The owner of the stream ends it: it takes no further text. -/
  | ended
  /-- The stream is closed. -/
  | closed
deriving DecidableEq, Repr

/-- A channel. -/
structure Channel where
  /-- Whether the channel was closed, or learnt that its stream failed or was closed. -/
  closed : Bool
  /-- Whether the stream was ended. -/
  ended : Bool
  /-- What happens to the stream during the coming writes, a list for each of them. -/
  arrivals : List (List Channel.Event)
deriving DecidableEq, Repr

/-- What a channel does that can be seen from outside. -/
inductive ChannelAction
  | write (text : Text)
  | log (entry : LogEntry)
  | endStream
deriving DecidableEq, Repr

namespace Channel

/-- A channel that was just opened on a stream to which nothing happens. -/
def opened : Channel := ⟨false, false, []⟩

/-- Whether statements can be sent. -/
def isOpen (c : Channel) : Bool := !c.closed && !c.ended

/-- Learns of an event. A failure is reported each time. -/
def notice (c : Channel) : Event → Channel × List ChannelAction
  | .failed message =>
    ({ c with closed := true }, [.log (.error (Text.ofString "[evaluator] " ++ message))])
  | .ended => ({ c with ended := true }, [])
  | .closed => ({ c with closed := true }, [])

/-- Learns of several events, one after the other. -/
def noticeAll (c : Channel) : List Event → Channel × List ChannelAction
  | [] => (c, [])
  | e :: rest =>
    let (c, actions) := c.notice e
    let (c, more) := noticeAll c rest
    (c, actions ++ more)

/-- Writes a line, during which things may happen to the stream. -/
def writeLine (c : Channel) (statement : Text) : Channel × List ChannelAction :=
  let (next, actions) := noticeAll { c with arrivals := c.arrivals.tail } (c.arrivals.headD [])
  (next, .write (statement ++ [lineFeed]) :: actions)

/-- Sends a statement if the channel is open, and answers whether it was sent. -/
def send (c : Channel) (statement : Text) : Channel × Bool × List ChannelAction :=
  if c.isOpen then
    let (next, actions) := c.writeLine statement
    (next, true, .log (.verbose (Text.ofString "[evaluator] " ++ statement)) :: actions)
  else
    (c, false, [.log (.warn
      (Text.ofString "[evaluator] not sent, channel is closed: " ++ statement))])

/-- Sends statements until one is not sent, and answers whether all were sent. -/
def sendAll (c : Channel) : List Text → Channel × Bool × List ChannelAction
  | [] => (c, true, [])
  | statement :: rest =>
    match c.send statement with
    | (c, false, actions) => (c, false, actions)
    | (c, true, actions) =>
      let (c, sent, more) := sendAll c rest
      (c, sent, actions ++ more)

/-- Sends a statement that shows a text. -/
def print (c : Channel) (t : Text) : Channel × Bool × List ChannelAction :=
  c.send (Statement.print t)

/-- Sends code as one statement. -/
def evaluate (c : Channel) (code : Text) :
    Except StatementError (Channel × Bool × List ChannelAction) :=
  (Statement.collapse code).map c.send

/-- Sends statements that show code and evaluate it. -/
def echoEvaluate (c : Channel) (code : Text) :
    Except StatementError (Channel × Bool × List ChannelAction) :=
  (Statement.echo code).map c.sendAll

/-- Sends the units of a document from an offset on, at most `steps`, that end by `stop`, and
answers how many were sent. It ends at the first one that is not sent. -/
def evaluateFrom (c : Channel) (nav : Navigator) (stop : Int) : (steps : Nat) → (offset : Int) →
    Channel × Except StatementError Nat × List ChannelAction
  | 0, _ => (c, .ok 0, [])
  | steps + 1, offset =>
    match nav.forwardSexp offset with
    | none => (c, .ok 0, [])
    | some sexp =>
      if stop < sexp.range.stop then (c, .ok 0, [])
      else
        match c.evaluate (nav.textOf sexp) with
        | .error e => (c, .error e, [])
        | .ok (c, false, actions) => (c, .ok 0, actions)
        | .ok (c, true, actions) =>
          let (c, sent, more) := evaluateFrom c nav stop steps sexp.range.stop
          (c, sent.map (· + 1), actions ++ more)

/-- Sends each unit of a document between two offsets as one statement, and answers how many were
sent. -/
def evaluateRegion (c : Channel) (d : Document) (start stop : Int) :
    Channel × Except StatementError Nat × List ChannelAction :=
  let nav := Navigator.ofDocument d Navigator.defaultMaxSteps
  c.evaluateFrom nav stop nav.maxSteps start

/-- Closes a channel. This ends the stream, unless the channel was closed before. -/
def close (c : Channel) : Channel × List ChannelAction :=
  if c.closed then (c, []) else ({ c with closed := true, ended := true }, [.endStream])

/-- What is asked of a channel. -/
inductive Request
  | print (text : Text)
  | evaluate (code : Text)
  | echo (code : Text)
  | region (document : Document) (start stop : Int)
  | close
deriving Repr

/-- The answer to a request. -/
inductive Answer
  /-- Whether all statements were sent. -/
  | sent (whole : Bool)
  /-- The number of statements that were sent. -/
  | count (statements : Nat)
  | nothing
  | refused (error : StatementError)
deriving DecidableEq, Repr

/-- What a channel does about a request. -/
def request (c : Channel) : Request → Channel × Answer × List ChannelAction
  | .print text =>
    let (c, sent, actions) := c.print text
    (c, .sent sent, actions)
  | .evaluate code =>
    match c.evaluate code with
    | .ok (c, sent, actions) => (c, .sent sent, actions)
    | .error e => (c, .refused e, [])
  | .echo code =>
    match c.echoEvaluate code with
    | .ok (c, sent, actions) => (c, .sent sent, actions)
    | .error e => (c, .refused e, [])
  | .region d start stop =>
    match c.evaluateRegion d start stop with
    | (c, .ok count, actions) => (c, .count count, actions)
    | (c, .error e, actions) => (c, .refused e, actions)
  | .close =>
    let (c, actions) := c.close
    (c, .nothing, actions)

/-- What happens to a channel: a request, or an event on its stream. -/
inductive Occurrence
  | request (r : Request)
  | event (e : Event)
deriving Repr

/-- What a channel does about an occurrence. -/
def step (c : Channel) : Occurrence → Channel × Answer × List ChannelAction
  | .request r => c.request r
  | .event e =>
    let (c, actions) := c.notice e
    (c, .nothing, actions)

end Channel

end SexpEditing
