import ProtoSource.Descriptor.Basic

/-!
# The empty message

The file that declares `google.protobuf.Empty`.
-/

namespace ProtoSource.WellKnown

open ProtoSource.Descriptor

def emptyPath : String := "google/protobuf/empty.proto"

/-- The full name of the empty message with its leading dot. -/
def emptyType : String := ".google.protobuf.Empty"

def emptyFile : File where
  name? := some emptyPath
  package? := some "google.protobuf"
  messages := [.mk { name? := some "Empty" } []]
  options? := some (.ofSettings
      [(1, .text "com.google.protobuf"),
       (8, .text "EmptyProto"),
       (10, .flag true),
       (11, .text "google.golang.org/protobuf/types/known/emptypb"),
       (31, .flag true),
       (36, .text "GPB"),
       (37, .text "Google.Protobuf.WellKnownTypes")])
  dialect? := some "proto3"

end ProtoSource.WellKnown
