namespace SpanReview

/-!
The types of syntax-tree nodes and the fields their children stand in.
-/

inductive NodeKind where
  | namedBlock
  | block
  | filter
  | tag
  | case
  | when
  | code
  | mixin
  | interpolatedTag
  | while
  | each
  | conditional
  | include
  | extends
  | rawInclude
  | attrs
  | attr
  | blockComment
  | comment
  | doctype
  | includeFilter
  | mixinBlock
  | yieldBlock
  | text
  | fileReference
  deriving DecidableEq, Repr

inductive Arity where
  | one
  | many
  deriving DecidableEq, Repr

structure ChildField where
  name : String
  arity : Arity
  deriving DecidableEq, Repr

namespace NodeKind

def all : List NodeKind :=
  [.namedBlock, .block, .filter, .tag, .case, .when, .code, .mixin, .interpolatedTag, .while,
    .each, .conditional, .include, .extends, .rawInclude, .attrs, .attr, .blockComment, .comment,
    .doctype, .includeFilter, .mixinBlock, .yieldBlock, .text, .fileReference]

def name : NodeKind → String
  | .namedBlock => "NamedBlock"
  | .block => "Block"
  | .filter => "Filter"
  | .tag => "Tag"
  | .case => "Case"
  | .when => "When"
  | .code => "Code"
  | .mixin => "Mixin"
  | .interpolatedTag => "InterpolatedTag"
  | .while => "While"
  | .each => "Each"
  | .conditional => "Conditional"
  | .include => "Include"
  | .extends => "Extends"
  | .rawInclude => "RawInclude"
  | .attrs => "Attrs"
  | .attr => "Attr"
  | .blockComment => "BlockComment"
  | .comment => "Comment"
  | .doctype => "Doctype"
  | .includeFilter => "IncludeFilter"
  | .mixinBlock => "MixinBlock"
  | .yieldBlock => "YieldBlock"
  | .text => "Text"
  | .fileReference => "FileReference"

def ofName? (name : String) : Option NodeKind :=
  all.find? fun kind => kind.name == name

/-- The child fields of a node, in the order they are walked. -/
def children : NodeKind → List ChildField
  | .namedBlock | .block => [⟨"nodes", .many⟩]
  | .filter => [⟨"attrs", .many⟩]
  | .tag => [⟨"attrs", .many⟩, ⟨"block", .one⟩]
  | .case | .when | .code | .mixin | .interpolatedTag | .while => [⟨"block", .one⟩]
  | .each => [⟨"block", .one⟩, ⟨"alternate", .one⟩]
  | .conditional => [⟨"consequent", .one⟩, ⟨"alternate", .one⟩]
  | .include => [⟨"block", .one⟩, ⟨"file", .one⟩]
  | .extends => [⟨"file", .one⟩]
  | .rawInclude => [⟨"filters", .many⟩, ⟨"file", .one⟩]
  | .fileReference => [⟨"ast", .one⟩]
  | .attrs | .attr | .blockComment | .comment | .doctype | .includeFilter | .mixinBlock
  | .yieldBlock | .text => []

end NodeKind

end SpanReview
