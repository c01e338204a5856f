namespace Reckoner

def programName : String :=
  "yarer"

def programVersion : String :=
  "0.2.0"

end Reckoner
