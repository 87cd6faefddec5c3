import LicenseHeader.Text.Basic

/-!
# Colours

Text in a colour or a face is written between two control sequences, provided that colours are on.
They are on when they are asked for, and off when they are not wanted; when it is left open, what is
at the other end of the stream decides. A patch for a reader has a colour for each kind of line,
which is told from how the line starts.
-/

namespace LicenseHeader.Console

open Text

/-- When colours are used. -/
inductive ColourChoice where
  /-- Where a reader can see them. -/
  | auto
  | never
  | always
deriving DecidableEq, Repr

def ColourChoice.name : ColourChoice → String
  | auto => "auto"
  | never => "never"
  | always => "always"

def ColourChoice.ofName? (name : String) : Option ColourChoice :=
  [ColourChoice.auto, .never, .always].find? fun choice => choice.name == name

/-- Whether colours are on for a stream; `shown` tells whether a reader can see them there. -/
def ColourChoice.isOn (choice : ColourChoice) (shown : Bool) : Bool :=
  match choice with
  | auto => shown
  | never => false
  | always => true

/-- A colour or a face. -/
inductive Paint where
  | red
  | green
  | yellow
  | cyan
  | bold
  | dimmed
deriving DecidableEq, Repr

/-- The numbers of the control sequences before and after a painted text. -/
def Paint.codes : Paint → String × String
  | red => ("31", "39")
  | green => ("32", "39")
  | yellow => ("33", "39")
  | cyan => ("36", "39")
  | bold => ("1", "0")
  | dimmed => ("2", "0")

def controlSequence (code : String) : String :=
  "\x1b[" ++ code ++ "m"

/-- A text in a colour or a face, if colours are `on`. -/
def paint (on : Bool) (p : Paint) (text : String) : String :=
  if on then controlSequence p.codes.1 ++ text ++ controlSequence p.codes.2 else text

/-! ### What a reader can see

Whether colours are shown on a stream that leads to a terminal or elsewhere, as the variables of the
environment tell it. -/

/-- Whether a terminal with a name shows colours: it is told from how the name starts, from what
stands in it, and from how it ends. -/
def isColourTerminal (name : String) : Bool :=
  ["screen", "xterm", "vt100", "vt220", "rxvt"].any (fun s => s.toList.isPrefixOf name.toList)
    || ["color", "ansi", "cygwin", "linux"].any
      (fun s => (firstOccurrence? s.toList name.toList).isSome)
    || ["256", "direct"].any fun s => s.toList.isSuffixOf name.toList

/-- Whether the environment asks for colours wherever a stream leads. -/
def forcesColours (value? : String → Option String) : Bool :=
  match value? "FORCE_COLOR" with
  | some level => level != "false" && level != "0"
  | none => (value? "CLICOLOR_FORCE").any (· != "0")

def showsColours (value? : String → Option String) (isTerminal : Bool) : Bool :=
  if forcesColours value? then true
  else if (value? "NO_COLOR").any (· != "0") || value? "TERM" == some "dumb" then false
  else if !isTerminal && !(value? "IGNORE_IS_TERMINAL").any (· != "0") then false
  else (value? "COLORTERM").isSome || (value? "TERM").any isColourTerminal
    || (value? "TERM_PROGRAM").any (["iTerm.app", "Apple_Terminal"].contains ·)
    || (value? "CLICOLOR").any (· != "0")
    || (value? "CI").any (["true", "1", "woodpecker"].contains ·)

/-! ### Patches -/

/-- The colour or face of a line of a patch. -/
def patchPaint? (line : List Char) : Option Paint :=
  if "diff ".toList.isPrefixOf line || "---".toList.isPrefixOf line
      || "+++".toList.isPrefixOf line then some .bold
  else if "@@".toList.isPrefixOf line then some .cyan
  else if "+".toList.isPrefixOf line then some .green
  else if "-".toList.isPrefixOf line then some .red
  else none

/-- A line of a patch in its colour; the line feed at its end stays outside. -/
def paintPatchLine (on : Bool) (line : Line) : List Char :=
  let ended := line.getLast? == some '\n'
  let text := if ended then line.dropLast else line
  let painted := match patchPaint? text with
    | some p => (paint on p (String.ofList text)).toList
    | none => text
  painted ++ (if ended then ['\n'] else [])

def paintPatch (on : Bool) (patch : String) : String :=
  String.ofList ((splitLines patch.toList).flatMap (paintPatchLine on))

end LicenseHeader.Console
