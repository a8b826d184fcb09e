import Mender.Json.Printer
import Mender.Markup.Escape

/-!
Stand-ins for modules that cannot be loaded.

A closed module is a function of the way to require other modules and of the object that
takes its exports.
-/

namespace Mender.Module

/-- The closed form around a body. -/
def closedForm (body : String) : String :=
  "(function (__pw_require, __pw_exports) \x7b\n" ++ body ++ "\n\x7d)"

def closedLines (ls : List String) : String := closedForm ("\n".intercalate ls)

/-- What is shown in the place of a missing component. -/
def placeholder (name : String) : String :=
  let n := Markup.escapeText name
  "<div data-missing-dependency=\"" ++ n ++ "\" style=\"border:1px dashed #c0392b;" ++
    "padding:4px 8px;color:#c0392b;font:12px monospace\">missing component: " ++ n ++ "</div>"

/-- A component that renders the given markup, whichever way it is called. -/
def componentStub (markup : String) : String :=
  closedLines [
    "const markup = " ++ quoted markup ++ ";",
    "function Stub(payload) \x7b if (payload && typeof payload.out === \"string\") " ++
      "\x7b payload.out += markup; \x7d return markup; \x7d",
    "Stub.$$render = function () \x7b return markup; \x7d;",
    "Stub.render = function () \x7b return \x7b html: markup, " ++
      "css: \x7b code: \"\", map: null \x7d, head: \"\" \x7d; \x7d;",
    "__pw_exports.default = Stub;"]

def inertFunction : String := "const inert = function () \x7b return undefined; \x7d;"

def inertDefault : String := "__pw_exports.default = inert;"

def inertExport (name : String) : String := "__pw_exports[" ++ quoted name ++ "] = inert;"

/-- A module whose exports do nothing. -/
def scriptStub (bindings : List String) : String :=
  closedLines ([inertFunction, inertDefault] ++ bindings.map inertExport)

/-- A module that has every export, none of which does anything. -/
def inertStub : String :=
  closedLines [inertFunction,
    "return new Proxy(\x7b\x7d, \x7b get: function (_, key) " ++
      "\x7b return key === \"then\" ? undefined : inert; \x7d \x7d);"]

end Mender.Module
