import ObeyGateway.Lib.F32
import ObeyGateway.Lib.Json

/-!
# Chat completion requests

`models/openai.rs`. Known fields are explicit, everything else is in `extra`. Requests come from JSON
text, which fixes what the fields say about them.
-/

namespace ObeyGateway.Models

/-- Deserialising puts into `extra` what is neither the role nor the content. -/
structure Message where
  role : String
  content : Json
  extra : Json.Map
  content_nodup : content.nodupKeys = true
  extra_nodup : (Json.object extra).nodupKeys = true
  extra_role : "role" ∉ Assoc.keys extra
  extra_content : "content" ∉ Assoc.keys extra

def Message.fields (m : Message) : Json.Map :=
  m.extra.foldl (fun map f => Assoc.insert map f.1 f.2)
    (Assoc.insert (Assoc.insert [] "role" (.string m.role)) "content" m.content)

/-- `serde_json::to_value` of a message -/
def Message.toValue (m : Message) : Json := .object m.fields

/-- No JSON number is read as a NaN. -/
structure OpenAIRequest where
  model : String
  messages : List Message
  stream : Bool
  temperature : Option { t : F32 // t.isNan = false }
  maxTokens : Option UInt32
  extra : Json.Map
  extra_nodup : (Json.object extra).nodupKeys = true

theorem Message.get_fields (m : Message) (k : String) : Assoc.get m.fields k =
    if k = "role" then some (.string m.role) else if k = "content" then some m.content
    else Assoc.get m.extra k := by
  rw [fields, Assoc.get_foldl_insert (Json.nodupKeys_object.1 m.extra_nodup).1, Assoc.get_insert,
    Assoc.get_insert]
  by_cases hrole : k = "role"
  · subst hrole
    simp [Assoc.get_eq_none m.extra_role]
  · by_cases hcontent : k = "content"
    · subst hcontent
      simp [Assoc.get_eq_none m.extra_content]
    · simp [hrole, hcontent]

theorem Message.nodupKeys_toValue (m : Message) : m.toValue.nodupKeys = true := by
  refine Json.nodupKeys_foldl_insert ?_ (Json.nodupKeys_object.1 m.extra_nodup).2
  exact Json.nodupKeys_insert (Json.nodupKeys_insert rfl rfl) m.content_nodup

end ObeyGateway.Models
