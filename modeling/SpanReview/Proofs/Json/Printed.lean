import SpanReview.Proofs.Json.Strings
import SpanReview.Proofs.Text.Decimal

namespace SpanReview.Json

/-! No control character is printed but the line feed, whatever the document holds. -/

def Printed (cs : List Char) : Prop :=
  ∀ c ∈ cs, c = '\n' ∨ 0x20 ≤ c.toNat

instance (cs : List Char) : Decidable (Printed cs) :=
  List.decidableBAll _ cs

instance (cs : List Char) : Decidable (Visible cs) :=
  List.decidableBAll _ cs

theorem Visible.printed {cs : List Char} (h : Visible cs) : Printed cs :=
  fun c hc => .inr (h c hc)

theorem Visible.subset {cs others : List Char} (h : Visible cs) (hsub : others ⊆ cs) :
    Visible others := fun c hc => h c (hsub hc)

theorem Printed.append {text more : String} (h : Printed text.toList)
    (hmore : Printed more.toList) : Printed (text ++ more).toList := by
  rw [String.toList_append]
  exact fun c hc => (List.mem_append.mp hc).elim (h c) (hmore c)

theorem visible_append {text more : String} (h : Visible text.toList)
    (hmore : Visible more.toList) : Visible (text ++ more).toList := by
  rw [String.toList_append]
  exact h.append hmore

/-! Numbers. -/

theorem visible_of_isDigit {c : Char} (h : c.isDigit) : 0x20 ≤ c.toNat := by
  have hrange : 48 ≤ c.toNat ∧ c.toNat ≤ 57 := by
    simpa [Char.isDigit, UInt32.le_iff_toNat_le] using h
  omega

theorem visible_natText (n : Nat) : Visible (Text.natText n).toList :=
  fun _ hc => visible_of_isDigit (Text.isDigit_of_mem_natText hc)

theorem visible_intText (n : Int) : Visible (Text.intText n).toList := by
  intro c hc
  rcases Text.mem_intText hc with hdigit | rfl
  · exact visible_of_isDigit hdigit
  · decide

namespace Real

theorem visible_zeros (n : Nat) : Visible (zeros n).toList := by
  intro c hc
  rw [zeros, String.toList_ofList] at hc
  rw [List.eq_of_mem_replicate hc]
  decide

theorem visible_part {text : String} {part : List Char} (h : Visible text.toList)
    (hsub : part ⊆ text.toList) : Visible (String.ofList part).toList := by
  rw [String.toList_ofList]
  exact h.subset hsub

theorem visible_scientific (s : Scientific) : Visible s.text.toList := by
  have hdigits := visible_natText s.digits
  have hfront := fun n : Nat => visible_part hdigits (List.take_subset n _)
  have hback := fun n : Nat => visible_part hdigits (List.drop_subset n _)
  have hpoint : Visible ".".toList := by decide
  unfold Scientific.text
  dsimp only
  split
  · exact visible_append (visible_append hdigits (visible_zeros _)) (by decide)
  · split
    · exact visible_append (visible_append (hfront _) hpoint) (hback _)
    · split
      · exact visible_append (visible_append (by decide) (visible_zeros _)) hdigits
      · refine visible_append (visible_append ?_ ?_) (visible_intText _)
        · split
          · exact hdigits
          · exact visible_append (visible_append (hfront _) hpoint) (hback _)
        · split <;> decide

theorem visible_text (x : Float) : Visible (text x).toList := by
  unfold text
  split
  · decide
  · have hsign : Visible (if signBit ≤ x.toBits.toNat then "-" else "").toList := by
      split <;> decide
    dsimp only
    split
    · exact visible_append hsign (by decide)
    · exact visible_append hsign (visible_scientific _)

end Real

/-! Documents. -/

theorem printed_newline (depth : Nat) : Printed (newline depth).toList := by
  have hfeed : Printed "\n".toList := by
    intro c hc
    exact .inl (List.mem_singleton.mp hc)
  refine hfeed.append fun c hc => ?_
  rw [String.toList_ofList] at hc
  rw [List.eq_of_mem_replicate hc]
  decide

mutual

theorem printed_prettyAt (depth : Nat) (value : Json) :
    Printed (prettyAt depth value).toList := by
  have hopen := printed_newline (depth + 1)
  have hclose := printed_newline depth
  match value with
  | .array [] => rw [prettyAt]; decide
  | .array (item :: rest) =>
      have hitems := printed_items (depth + 1) (item :: rest)
      rw [prettyAt]
      exact ((((by decide : Printed "[".toList).append hopen).append hitems).append hclose).append
        (by decide)
  | .object [] => rw [prettyAt]; decide
  | .object (member :: rest) =>
      have hmembers := printed_members (depth + 1) (member :: rest)
      rw [prettyAt]
      exact ((((by decide : Printed "\x7b".toList).append hopen).append hmembers).append
        hclose).append (by decide)
  | .null => rw [prettyAt]; decide
  | .bool true => rw [prettyAt]; decide
  | .bool false => rw [prettyAt]; decide
  | .int number => exact (visible_intText number).printed
  | .real number => exact (Real.visible_text number).printed
  | .string text => exact (visible_quote text).printed

theorem printed_items (depth : Nat) (items : List Json) :
    Printed (prettyItems depth items).toList := by
  match items with
  | [] => rw [prettyItems]; decide
  | [item] => exact printed_prettyAt depth item
  | item :: next :: rest =>
      have hitem := printed_prettyAt depth item
      have hrest := printed_items depth (next :: rest)
      rw [prettyItems]
      · exact ((hitem.append (by decide)).append (printed_newline depth)).append hrest
      · exact List.cons_ne_nil _ _

theorem printed_members (depth : Nat) (members : List (String × Json)) :
    Printed (prettyMembers depth members).toList := by
  match members with
  | [] => rw [prettyMembers]; decide
  | [(key, value)] =>
      have hvalue := printed_prettyAt depth value
      exact (((visible_quote key).printed).append (by decide)).append hvalue
  | (key, value) :: next :: rest =>
      have hvalue := printed_prettyAt depth value
      have hmember := (((visible_quote key).printed).append
        (by decide : Printed ": ".toList)).append hvalue
      have hrest := printed_members depth (next :: rest)
      rw [prettyMembers]
      · exact ((hmember.append (by decide)).append (printed_newline depth)).append hrest
      · exact List.cons_ne_nil _ _

end

theorem printed_pretty (value : Json) : Printed value.pretty.toList :=
  printed_prettyAt 0 value

end SpanReview.Json
