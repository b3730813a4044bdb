import LineShell.Text.Basic
import LineShell.Text.Quoted

namespace LineShell

/-!
Some commands ask before they go on.  The answer runs lines that were not typed
by the user.
-/

/-- The questions that commands ask. -/
inductive Question where
  | sample
  | license
  deriving DecidableEq, Repr

/-- The license that the user may ask to see. -/
def licenseText : String :=
  "MIT License\n\nCopyright (c) 2024 bscit\n
Permission is hereby granted, free of charge, to any person obtaining a copy
of this software and associated documentation files (the \"Software\"), to deal
in the Software without restriction, including without limitation the rights
to use, copy, modify, merge, publish, distribute, sublicense, and/or sell
copies of the Software, and to permit persons to whom the Software is
furnished to do so, subject to the following conditions:

The above copyright notice and this permission notice shall be included in all
copies or substantial portions of the Software.

THE SOFTWARE IS PROVIDED \"AS IS\", WITHOUT WARRANTY OF ANY KIND, EXPRESS OR
IMPLIED, INCLUDING BUT NOT LIMITED TO THE WARRANTIES OF MERCHANTABILITY,
FITNESS FOR A PARTICULAR PURPOSE AND NONINFRINGEMENT. IN NO EVENT SHALL THE
AUTHORS OR COPYRIGHT HOLDERS BE LIABLE FOR ANY CLAIM, DAMAGES OR OTHER
LIABILITY, WHETHER IN AN ACTION OF CONTRACT, TORT OR OTHERWISE, ARISING FROM,
OUT OF OR IN CONNECTION WITH THE SOFTWARE OR THE USE OR OTHER DEALINGS IN THE
SOFTWARE.
"

/-- The line that shows a text. -/
def echoLine (text : String) : String :=
  "echo " ++ Text.Quoted.encode text

namespace Question

def wording : Question -> String
  | .sample => "example question"
  | .license => "u sure?"

def onYes : Question -> List String
  | .sample => ["user said yes", "yay!!!"].map echoLine
  | .license => ((Text.lines licenseText.toList).map String.ofList).map echoLine

def onNo : Question -> List String
  | .sample => ["user said no", "man...."].map echoLine
  | .license => []

/-- The lines that an answer runs, if it is one. -/
def onAnswer? (question : Question) (answer : String) : Option (List String) :=
  if answer = "y" then some question.onYes
  else if answer = "n" then some question.onNo
  else none

end Question
end LineShell
