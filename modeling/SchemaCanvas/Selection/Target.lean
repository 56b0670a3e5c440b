import SchemaCanvas.Schema.Path

/-!
# Targets of the pointer

Pointing at a node rarely means that node: the selection moves through a tree by one level at a
time. A hover or a click addresses the node on the way to the pointer, one level below the last node
that the ways to the pointer and to the selection share. A double click drills towards the pointer.
-/

namespace SchemaCanvas

/-- The node that a hover over `hovered` addresses. Without a selection it is a top-level node. -/
def hoverTarget (selected : Option Path) (hovered : Path) : Path :=
  match selected with
  | none => hovered.take 1
  | some sel =>
    let isChild := sel.isPrefixOf hovered && hovered.length == sel.length + 1
    if hovered = sel || isChild || hovered.isAbove sel then hovered
    else hovered.take (sel.commonLength hovered + 1)

/-- The node towards which a double click moves, which may be the selection itself. The target is at
most one level deeper than the selection, and at most one level less deep. -/
def drillTarget (sel clicked : Path) : Path :=
  if sel.isPrefixOf clicked then clicked.take (sel.length + 1)
  else
    let depth := min (sel.length + 1) clicked.length
    if sel.length ≤ depth + 1 then clicked.take depth else sel.dropLast

/-- Where a double click moves the selection, if it moves it. -/
def doubleClickTarget? (selected : Option Path) (clicked : Path) : Option Path :=
  match selected with
  | none => some (hoverTarget none clicked)
  | some sel =>
    if clicked = sel || drillTarget sel clicked = sel then none else some (drillTarget sel clicked)

end SchemaCanvas
