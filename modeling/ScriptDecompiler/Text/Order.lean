/-!
# The order of texts

Texts are ordered by their first characters that differ, and these by their code
points; a text comes after its own beginnings.  The bytes of the UTF-8 forms
have the same order.
-/

namespace ScriptDecompiler.Text

/-- Does the first text come before the second one, or are they equal? -/
def precedes : List Char → List Char → Bool
  | [], _ => true
  | _ :: _, [] => false
  | a :: as, b :: bs => a.toNat < b.toNat || (a.toNat == b.toNat && precedes as bs)

end ScriptDecompiler.Text
