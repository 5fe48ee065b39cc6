import RecordPath.Admission

namespace RecordPath.Shape

section Outcome

variable {shape : Shape} {isSigned : Bool} {n : Int} {message : String} {value : Json}

end Outcome

end RecordPath.Shape
