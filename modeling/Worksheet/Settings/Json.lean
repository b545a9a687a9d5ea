import Worksheet.Json
import Worksheet.Settings.Basic

/-! Settings as a JSON text: an object of fields, or an array of their values in the order of the
fields. Numbers are plain integers. -/
namespace Worksheet.Settings

def entryOfJson? : Json → Option Entry
  | .number spelling => (Numeral.word? spelling.toList).map .number
  | .string text => text.map .text
  | .object [(some name, .null)] => some (.choice name)
  | _ => none

def ofJsonValue? : Json → Option Settings
  | .object members => do
    let entries ← members.mapM fun m => return ((← m.1), ← entryOfJson? m.2)
    ofEntries? entries
  | .array items => do
    guard (items.length ≤ fields.length)
    ofEntries? (fields.zip (← items.mapM entryOfJson?))
  | _ => none

def ofJson? (text : String) : Option Settings := (Json.read text).bind ofJsonValue?

end Worksheet.Settings
