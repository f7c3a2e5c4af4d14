import SpanReview.Json.Written

namespace SpanReview.Json

/-! What a reader has read are the tokens of the document, as far as it is there: nothing is left
out, and nothing else is accepted. -/

/-- Parts with commas between them. -/
def separated : List (List Token) → List Token
  | [] => []
  | [part] => part
  | part :: rest => part ++ .comma :: separated rest

mutual

def Written.tokens : Written → List Token
  | .null => [.null]
  | .bool value => [.bool value]
  | .number value => [.number value]
  | .string pieces => [.string pieces]
  | .array items => .openArray :: separated (Written.partsOfItems items) ++ [.closeArray]
  | .object members => .openObject :: separated (Written.partsOfMembers members) ++ [.closeObject]

def Written.partsOfItems : List Written → List (List Token)
  | [] => []
  | item :: rest => item.tokens :: Written.partsOfItems rest

def Written.partsOfMembers : List (List Piece × Written) → List (List Token)
  | [] => []
  | (key, item) :: rest =>
      (.string key :: .colon :: item.tokens) :: Written.partsOfMembers rest

end

/-- The tokens of a container that is still open, up to where its next part stands. -/
def Frame.tokens : Frame → List Token
  | .array items =>
      .openArray :: (Written.partsOfItems items.reverse).flatMap (· ++ [.comma])
  | .object members =>
      .openObject :: (Written.partsOfMembers members.reverse).flatMap (· ++ [.comma])
  | .member members key =>
      .openObject :: (Written.partsOfMembers members.reverse).flatMap (· ++ [.comma]) ++
        [.string key, .colon]

def openTokens (stack : List Frame) : List Token :=
  stack.reverse.flatMap Frame.tokens

/-- The tokens that brought a reader to where it is. -/
inductive HasRead : Reader → List Token → Prop
  | value {stack : List Frame} : HasRead ⟨stack, .value, none⟩ (openTokens stack)
  | itemOrEnd {below : List Frame} :
      HasRead ⟨.array [] :: below, .itemOrEnd, none⟩ (openTokens (.array [] :: below))
  | memberOrEnd {below : List Frame} :
      HasRead ⟨.object [] :: below, .memberOrEnd, none⟩ (openTokens (.object [] :: below))
  | key {below : List Frame} {members : List (List Piece × Written)} :
      HasRead ⟨.object members :: below, .key, none⟩ (openTokens (.object members :: below))
  | colon {below : List Frame} {members : List (List Piece × Written)} {key : List Piece} :
      HasRead ⟨.object members :: below, .colon key, none⟩
        (openTokens (.object members :: below) ++ [.string key])
  | item {below : List Frame} {items : List Written} {item : Written} :
      HasRead ⟨.array (item :: items) :: below, .next, none⟩
        (openTokens (.array items :: below) ++ item.tokens)
  | member {below : List Frame} {members : List (List Piece × Written)} {key : List Piece}
      {item : Written} : HasRead ⟨.object ((key, item) :: members) :: below, .next, none⟩
        (openTokens (.member members key :: below) ++ item.tokens)
  | root {document : Written} : HasRead ⟨[], .next, some document⟩ document.tokens

theorem separated_concat (parts : List (List Token)) (last : List Token) :
    separated (parts ++ [last]) = parts.flatMap (· ++ [.comma]) ++ last := by
  induction parts with
  | nil => rfl
  | cons part parts ih =>
      obtain ⟨next, rest, hrest⟩ := List.exists_cons_of_ne_nil
        (List.append_ne_nil_of_right_ne_nil parts (List.cons_ne_nil last []))
      rw [List.cons_append, hrest, separated, ← hrest, ih]
      · simp
      · nofun

theorem partsOfItems_append (items others : List Written) :
    Written.partsOfItems (items ++ others) =
      Written.partsOfItems items ++ Written.partsOfItems others := by
  induction items with
  | nil => rfl
  | cons item items ih =>
      rw [List.cons_append, Written.partsOfItems, Written.partsOfItems, ih, List.cons_append]

theorem partsOfMembers_append (members others : List (List Piece × Written)) :
    Written.partsOfMembers (members ++ others) =
      Written.partsOfMembers members ++ Written.partsOfMembers others := by
  induction members with
  | nil => rfl
  | cons member members ih =>
      obtain ⟨key, item⟩ := member
      rw [List.cons_append, Written.partsOfMembers, Written.partsOfMembers, ih, List.cons_append]

theorem openTokens_cons (frame : Frame) (below : List Frame) :
    openTokens (frame :: below) = openTokens below ++ frame.tokens := by
  simp [openTokens]

theorem Frame.tokens_array_cons (item : Written) (items : List Written) :
    Frame.tokens (.array (item :: items)) =
      Frame.tokens (.array items) ++ item.tokens ++ [.comma] := by
  simp [Frame.tokens, partsOfItems_append, Written.partsOfItems]

theorem Frame.tokens_member (members : List (List Piece × Written)) (key : List Piece) :
    Frame.tokens (.member members key) =
      Frame.tokens (.object members) ++ [.string key, .colon] := rfl

theorem Frame.tokens_object_cons (key : List Piece) (item : Written)
    (members : List (List Piece × Written)) :
    Frame.tokens (.object ((key, item) :: members)) =
      Frame.tokens (.member members key) ++ item.tokens ++ [.comma] := by
  simp [Frame.tokens, partsOfMembers_append, Written.partsOfMembers]

theorem tokens_array_reverse (item : Written) (items : List Written) :
    (Written.array (item :: items).reverse).tokens =
      Frame.tokens (.array items) ++ item.tokens ++ [.closeArray] := by
  rw [Written.tokens, List.reverse_cons, partsOfItems_append, Written.partsOfItems,
    Written.partsOfItems, separated_concat]
  simp [Frame.tokens]

theorem tokens_object_reverse (key : List Piece) (item : Written)
    (members : List (List Piece × Written)) :
    (Written.object ((key, item) :: members).reverse).tokens =
      Frame.tokens (.member members key) ++ item.tokens ++ [.closeObject] := by
  rw [Written.tokens, List.reverse_cons, partsOfMembers_append, Written.partsOfMembers,
    Written.partsOfMembers, separated_concat]
  simp [Frame.tokens]

theorem hasRead_of_accept {stack : List Frame} {expected : Expected} {root : Option Written}
    {value : Written} {next : Reader}
    (h : Reader.accept ⟨stack, expected, root⟩ value = some next) :
    HasRead next (openTokens stack ++ value.tokens) := by
  unfold Reader.accept at h
  split at h
  · rename_i hstack
    cases h
    cases hstack
    exact .root
  · rename_i hstack
    cases h
    cases hstack
    exact .item
  · rename_i hstack
    cases h
    cases hstack
    exact .member
  · cases h

theorem hasRead_of_startValue {stack : List Frame} {expected : Expected} {token : Token}
    {next : Reader} (h : Reader.startValue ⟨stack, expected, none⟩ token = some next) :
    HasRead next (openTokens stack ++ [token]) := by
  cases token with
  | openArray =>
      cases h
      have hread : HasRead ⟨.array [] :: stack, .itemOrEnd, none⟩ _ := .itemOrEnd
      rwa [openTokens_cons] at hread
  | openObject =>
      cases h
      have hread : HasRead ⟨.object [] :: stack, .memberOrEnd, none⟩ _ := .memberOrEnd
      rwa [openTokens_cons] at hread
  | null => exact hasRead_of_accept h
  | bool value => exact hasRead_of_accept h
  | number value => exact hasRead_of_accept h
  | string value => exact hasRead_of_accept h
  | _ => cases h

theorem HasRead.step {reader next : Reader} {tokens : List Token} {token : Token}
    (hread : HasRead reader tokens) (h : reader.step token = some next) :
    HasRead next (tokens ++ [token]) := by
  cases hread with
  | value => exact hasRead_of_startValue h
  | @itemOrEnd below =>
      cases token with
      | closeArray =>
          have hclosed := hasRead_of_accept h
          simpa [openTokens_cons, Frame.tokens, Written.tokens, Written.partsOfItems, separated]
            using hclosed
      | _ => exact @hasRead_of_startValue _ .itemOrEnd _ _ h
  | @memberOrEnd below =>
      cases token with
      | closeObject =>
          have hclosed := hasRead_of_accept h
          simpa [openTokens_cons, Frame.tokens, Written.tokens, Written.partsOfMembers, separated]
            using hclosed
      | string key =>
          cases h
          exact .colon
      | _ => cases h
  | key =>
      cases token with
      | string key =>
          cases h
          exact .colon
      | _ => cases h
  | @colon below members key =>
      cases token with
      | colon =>
          cases h
          have hvalue : HasRead ⟨.member members key :: below, .value, none⟩ _ := .value
          rw [openTokens_cons, Frame.tokens_member] at hvalue
          simpa [openTokens_cons] using hvalue
      | _ => cases h
  | @item below items item =>
      cases token with
      | comma =>
          cases h
          have hvalue : HasRead ⟨.array (item :: items) :: below, .value, none⟩ _ := .value
          rw [openTokens_cons, Frame.tokens_array_cons] at hvalue
          simpa [openTokens_cons] using hvalue
      | closeArray =>
          have hclosed := hasRead_of_accept h
          rw [tokens_array_reverse] at hclosed
          simpa [openTokens_cons] using hclosed
      | _ => cases h
  | @member below members key item =>
      cases token with
      | comma =>
          cases h
          have hkey : HasRead ⟨.object ((key, item) :: members) :: below, .key, none⟩ _ := .key
          rw [openTokens_cons, Frame.tokens_object_cons] at hkey
          simpa [openTokens_cons] using hkey
      | closeObject =>
          have hclosed := hasRead_of_accept h
          rw [tokens_object_reverse] at hclosed
          simpa [openTokens_cons] using hclosed
      | _ => cases h
  | root =>
      cases token with
      | _ => cases h

theorem HasRead.run {reader last : Reader} {before tokens : List Token}
    (hread : HasRead reader before) (h : reader.run tokens = some last) :
    HasRead last (before ++ tokens) := by
  induction tokens generalizing reader before with
  | nil =>
      cases h
      rwa [List.append_nil]
  | cons token tokens ih =>
      obtain ⟨next, hstep, hrest⟩ := Option.bind_eq_some_iff.mp h
      have hlast := ih (hread.step hstep) hrest
      rwa [List.append_assoc, List.singleton_append] at hlast

/-- A document is read from its own tokens only. -/
theorem tokens_of_ofTokens? {tokens : List Token} {document : Written}
    (h : Written.ofTokens? tokens = some document) : tokens = document.tokens := by
  obtain ⟨last, hrun, hfinish⟩ := Option.bind_eq_some_iff.mp h
  have hstart : HasRead Reader.start [] := .value
  have hread := hstart.run hrun
  rw [List.nil_append] at hread
  unfold Reader.finish at hfinish
  split at hfinish
  · cases hread with
    | root => cases hfinish; rfl
    | value => cases hfinish
    | _ => contradiction
  · cases hfinish

end SpanReview.Json
