/-!
# Spans of source text

A `Span` is a range of byte offsets into a source text, counted in UTF-8. Every token carries
one, and a syntax error points at the span of the token it is about.
-/

namespace MonkeyLang

/-- A range of byte offsets: from `start` up to, but not including, `stop`. -/
structure Span where
  start : Nat
  stop : Nat
deriving DecidableEq, Repr, Inhabited

namespace Span

/-- The empty span at an offset. -/
def point (offset : Nat) : Span := ⟨offset, offset⟩

/-- The number of bytes covered, which is none when the span stops before it starts. -/
def length (s : Span) : Nat := s.stop - s.start

/-- Does the span cover no byte at all? -/
def isEmpty (s : Span) : Bool := s.length == 0

/-- The same range in a text that has `bytes` more bytes in front. -/
def shift (bytes : Nat) (s : Span) : Span := ⟨s.start + bytes, s.stop + bytes⟩

@[simp] theorem length_point (offset : Nat) : (point offset).length = 0 := Nat.sub_self offset

@[simp] theorem length_shift (bytes : Nat) (s : Span) : (s.shift bytes).length = s.length := by
  simp only [length, shift]
  omega

@[simp] theorem shift_zero (s : Span) : s.shift 0 = s := rfl

end Span

end MonkeyLang
