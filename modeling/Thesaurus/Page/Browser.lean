import Thesaurus.Layout.Basic

/-!
# The surroundings of a page

What a page asks its browser for: the window and its size, the element around the canvas, the
canvas' place on the screen, and a context to draw on. Each may be missing.
-/

namespace Thesaurus.Page

/-- A width and a height. -/
structure Extent where
  /-- The width. -/
  width : Float
  /-- The height. -/
  height : Float

/-- What a browser has to offer. -/
structure Browser where
  /-- Whether there is a window. -/
  hasWindow : Bool := true
  /-- The size of the window, where it is known. -/
  window : Option Extent := some ⟨1280, 720⟩
  /-- The size of the element around the canvas, where there is one. -/
  parent : Option Extent := none
  /-- Whether the canvas has a context to draw on. -/
  hasContext : Bool := true
  /-- The left upper corner of the canvas on the screen. -/
  offset : Point := {}

/-- The size of the viewport, if there is a window that knows it. -/
def Browser.viewport? (browser : Browser) : Option Extent :=
  if browser.hasWindow then browser.window else none

end Thesaurus.Page
