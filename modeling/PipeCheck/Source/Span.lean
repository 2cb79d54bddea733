/-!
# Spans of a source text

A span is a range of byte offsets.  Nothing is assumed about it: it may be
empty, reversed or reach past the text.
-/

namespace PipeCheck

/-- A range of byte offsets, from `start` up to `stop`. -/
structure Span where
  /-- The first offset. -/
  start : UInt64 := 0
  /-- The offset after the last. -/
  stop : UInt64 := 0
deriving DecidableEq, Repr, Inhabited

namespace Span

/-- The smallest span that covers two spans. -/
def join (left right : Span) : Span :=
  { start := min left.start right.start, stop := max left.stop right.stop }

/-- The running joins of a list of spans. -/
def joins : List Span → List Span
  | [] => []
  | first :: rest => first :: go first rest
where
  /-- The joins of a span with longer and longer parts of a list. -/
  go (joined : Span) : List Span → List Span
    | [] => []
    | next :: rest => joined.join next :: go (joined.join next) rest

end Span
end PipeCheck
