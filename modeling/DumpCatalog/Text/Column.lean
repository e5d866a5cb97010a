/-! # Columns

Text filled up with spaces to a least width, counted in characters. -/

namespace DumpCatalog.Text

/-- The text, followed by as many spaces as it lacks to the width. -/
def padRight (width : Nat) (text : String) : String :=
  text ++ String.ofList (List.replicate (width - text.length) ' ')

/-- The text, after as many spaces as it lacks to the width. -/
def padLeft (width : Nat) (text : String) : String :=
  String.ofList (List.replicate (width - text.length) ' ') ++ text

theorem length_padRight (width : Nat) (text : String) :
    (padRight width text).length = max width text.length := by
  simp [padRight]; omega

theorem length_padLeft (width : Nat) (text : String) :
    (padLeft width text).length = max width text.length := by
  simp [padLeft]; omega

end DumpCatalog.Text
