import Mender.Markup.Escape

/-!
What is shown of a component that is not executed: its source, with the reason.
-/

namespace Mender.Component

open Mender.Markup

def fallback (source reason : String) : String :=
  "<div class=\"pw-preview-fallback\" data-preview=\"source\">\n" ++
    "<p class=\"pw-preview-notice\">Preview not executed: " ++ escapeText reason ++ "</p>\n" ++
    "<pre><code class=\"language-svelte\">" ++ escapeText source ++ "</code></pre>\n" ++
    "</div>"

end Mender.Component
