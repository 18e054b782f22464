import Signpost.Regex.CharSet

/-!
Regular expressions with named groups. `Regex.ends` is what they mean: from a place in a text it
gives the places where a match can end, best first, each with the pieces that named groups took on
the way there. A place is listed once, with its best way. The order is that of backtracking, where
an earlier alternative is better and a greedy repetition tries to go on before it stops; what
follows in a pattern can only ask where a match ended, so dropping the worse ways to one place loses
nothing.
-/

namespace Signpost

/-- A condition on the place between two characters. -/
inductive Look where
  | textStart
  | textEnd
  | lineStart
  | lineEnd
  /-- Start of a line where a carriage return, a line feed or both end a line. -/
  | anyLineStart
  | anyLineEnd
  | wordBoundary (unicode : Bool)
  | notWordBoundary (unicode : Bool)
  | wordStart (unicode : Bool)
  | wordEnd (unicode : Bool)
  | wordStartHalf (unicode : Bool)
  | wordEndHalf (unicode : Bool)
  deriving Repr, DecidableEq

inductive Regex where
  | empty
  | set (s : CharSet)
  | look (l : Look)
  | cat (r s : Regex)
  | alt (r s : Regex)
  /-- Matches `r` at least `least` times and at most `most` times, if there is a bound. -/
  | repeated (r : Regex) (least : Nat) (most : Option Nat) (greedy : Bool)
  /-- Matches what `r` matches and names the piece. -/
  | group (name : Text) (r : Regex)
  deriving Repr, DecidableEq

/-- A place in a text: how many characters lie before it, the last of them, and the text after
it. -/
structure Place where
  index : Nat
  last : Option Char
  rest : Text
  deriving Repr, DecidableEq

def Place.start (t : Text) : Place :=
  ⟨0, none, t⟩

/-- The pieces that named groups took, latest first. -/
abbrev Captures := List (Text × Text)

/-- A place where a match can end, with what the groups took on the way. -/
structure Hit where
  place : Place
  captures : Captures
  deriving Repr, DecidableEq

namespace Look

def isWord (unicode : Bool) : Option Char → Bool
  | some c => if unicode then Unicode.isWordChar c else c.isAlphanum || c == '_'
  | none => false

def holds (l : Look) (p : Place) : Bool :=
  let next := p.rest.head?
  match l with
  | textStart => p.last == none
  | textEnd => next == none
  | lineStart => p.last == none || p.last == some '\n'
  | lineEnd => next == none || next == some '\n'
  | anyLineStart =>
    p.last == none || p.last == some '\n' || (p.last == some '\r' && next != some '\n')
  | anyLineEnd => next == none || next == some '\r' || (next == some '\n' && p.last != some '\r')
  | wordBoundary u => isWord u p.last != isWord u next
  | notWordBoundary u => isWord u p.last == isWord u next
  | wordStart u => !isWord u p.last && isWord u next
  | wordEnd u => isWord u p.last && !isWord u next
  | wordStartHalf u => !isWord u p.last
  | wordEndHalf u => !isWord u next

end Look

namespace Hit

/-- The hit lies at the same place as one of the others. -/
def isAmong (h : Hit) (hs : List Hit) : Bool :=
  hs.any fun k => k.place.index == h.place.index

/-- Two lists of hits, the better ones first: of the second only those at places that the first
lacks. -/
def merge (better worse : List Hit) : List Hit :=
  better ++ worse.filter fun h => !h.isAmong better

/-- A hit of what follows, with what was taken before it. -/
def extend (h next : Hit) : Hit :=
  ⟨next.place, next.captures ++ h.captures⟩

/-- Goes on with `step` from each hit in turn. -/
def chain (step : Place → List Hit) : List Hit → List Hit
  | [] => []
  | h :: hs => merge ((step h.place).map h.extend) (chain step hs)

def times (step : Place → List Hit) : Nat → List Hit → List Hit
  | 0, hs => hs
  | n + 1, hs => times step n (chain step hs)

def upTo (step : Place → List Hit) (greedy : Bool) : Nat → Place → List Hit
  | 0, p => [⟨p, []⟩]
  | n + 1, p =>
    let onward := chain (upTo step greedy n) (step p)
    if greedy then merge onward [⟨p, []⟩] else merge [⟨p, []⟩] onward

/-- Goes on with `step` as often as it moves forward, from `h`; `found` lists what earlier turns of
the loop found, and the loop is not run twice from one place. `room` bounds the characters left,
hence the turns. -/
def loop (step : Place → List Hit) (greedy : Bool) :
    (room : Nat) → (found : List Hit) → (h : Hit) → List Hit
  | room, found, h =>
    if h.isAmong found then found
    else
      let onward :=
        match room with
        | 0 => found
        | room + 1 =>
          (((step h.place).filter fun k => h.place.index < k.place.index).map h.extend).foldl
            (loop step greedy room) found
      if greedy then onward ++ [h] else found ++ h :: onward.drop found.length

/-- Goes on with `step` once or more. A first turn that takes nothing is also the last. -/
def onceOrMore (step : Place → List Hit) (greedy : Bool) (p : Place) : List Hit :=
  (step p).foldl (fun found h =>
    if h.place.index = p.index then merge found [h]
    else loop step greedy h.place.rest.length found h) []

def repetition (step : Place → List Hit) (least : Nat) (most : Option Nat) (greedy : Bool)
    (p : Place) : List Hit :=
  match most with
  | some most => chain (upTo step greedy (most - least)) (times step least [⟨p, []⟩])
  | none =>
    match least with
    | 0 =>
      let onward := onceOrMore step greedy p
      if greedy then merge onward [⟨p, []⟩] else merge [⟨p, []⟩] onward
    | least + 1 => chain (onceOrMore step greedy) (times step least [⟨p, []⟩])

end Hit

namespace Regex

def between (p q : Place) : Text :=
  p.rest.take (q.index - p.index)

/-- The places where a match that starts at a place can end, best first. -/
def ends : Regex → Place → List Hit
  | empty, p => [⟨p, []⟩]
  | set s, p =>
    match p.rest with
    | c :: rest => if s.mem c then [⟨⟨p.index + 1, some c, rest⟩, []⟩] else []
    | [] => []
  | look l, p => if l.holds p then [⟨p, []⟩] else []
  | cat r s, p => Hit.chain s.ends (r.ends p)
  | alt r s, p => Hit.merge (r.ends p) (s.ends p)
  | repeated r least most greedy, p => Hit.repetition r.ends least most greedy p
  | group name r, p => (r.ends p).map fun h => ⟨h.place, (name, between p h.place) :: h.captures⟩

/-- The best hit of a match that starts in front of `rest` or later. -/
def firstHit (r : Regex) (index : Nat) (last : Option Char) (rest : Text) : Option Hit :=
  match (r.ends ⟨index, last, rest⟩).head? with
  | some h => some h
  | none =>
    match rest with
    | [] => none
    | c :: rest => firstHit r (index + 1) (some c) rest

/-- What the named groups take in the leftmost match within a text, or `none` when there is no
match. -/
def captures? (r : Regex) (t : Text) : Option Captures :=
  (r.firstHit 0 none t).map (·.captures)

def isMatch (r : Regex) (t : Text) : Bool :=
  (r.captures? t).isSome

end Regex

/-- The piece that the group of this name took last. -/
def Captures.get? (cs : Captures) (name : Text) : Option Text :=
  (cs.find? fun (k, _) => k == name).map (·.2)

end Signpost
