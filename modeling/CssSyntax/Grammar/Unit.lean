import CssSyntax.Byte

/-! The units that a number may carry: lengths, percentages of the viewport and of containers,
angles, times, frequencies, resolutions and fractions of a grid. -/

namespace CssSyntax

def units : List String :=
  [ "cm", "mm", "in", "px", "pt", "pc", "q"
  , "em", "ex", "ch", "rem", "lh", "rlh", "vb", "vi"
  , "vw", "vh", "vmin", "vmax"
  , "svw", "svh", "svi", "svb", "svmin", "svmax"
  , "lvw", "lvh", "lvi", "lvb", "lvmin", "lvmax"
  , "dvw", "dvh", "dvi", "dvb", "dvmin", "dvmax"
  , "cqw", "cqh", "cqi", "cqb", "cqmin", "cqmax"
  , "deg", "grad", "rad", "turn"
  , "s", "ms"
  , "hz", "khz"
  , "dpi", "dpcm", "dppx"
  , "fr" ]

/-- True of `%` and of a unit in any case of its letters. -/
def isUnit (bytes : Bytes) : Bool :=
  bytes == utf8 "%" || units.any fun unit => Bytes.sameIgnoringCase (utf8 unit) bytes

end CssSyntax
