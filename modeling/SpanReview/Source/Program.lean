import SpanReview.Source.Basic

namespace SpanReview

/-!
Programs of the host. Which there are, what they answer and what they change on the disk is up
to the host.
-/

structure Completed where
  isSuccess : Bool
  status : String
  output : ByteArray
  complaint : ByteArray

/-- Runs a program with its arguments and its input; none if that is not possible. -/
abbrev Programs (σ : Type) :=
  (program : String) → (arguments : List String) → (input : String) → World σ →
    Option Completed × World σ

end SpanReview
