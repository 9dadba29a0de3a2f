import DocTags.Text.Basic

/-!
Models: documented data types with their properties.
-/

namespace DocTags

structure Property where
  name : Text
  /-- The data type as it is written. -/
  datatype : Text
  description : Text
  /-- Whether the property is marked as required or as optional, if it is marked. -/
  required : Option Bool
  nullable : Option Bool
  sample : Option Text
  deriving DecidableEq, Repr

structure Model where
  name : Text
  description : Text
  summary : Option Text
  version : Option Text
  properties : List Property
  deriving DecidableEq, Repr

end DocTags
