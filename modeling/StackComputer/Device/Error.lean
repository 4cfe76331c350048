import StackComputer.FileTree.Error
import StackComputer.Word

/-!
# Device errors

Why a device, the registry or the bus refused an operation.
-/

namespace StackComputer

inductive DeviceError where
  | emptyName
  | emptyPath
  | notOutput (name : Text)
  | notAttached (name : Text)
  | notAttachable (name : Text)
  | unknownDevice (name : Text)
  | noDevice (code : Byte)
  | file (cause : FileError)
deriving DecidableEq, Repr

def DeviceError.message : DeviceError → Text
  | emptyName => "device name required".toList
  | emptyPath => "path required".toList
  | notOutput name => name ++ " is not an output device".toList
  | notAttached name => name ++ " is not attached".toList
  | notAttachable name => name ++ " cannot be attached to a file".toList
  | unknownDevice name => "unknown device: ".toList ++ name
  | noDevice code => "no device for code ".toList ++ Text.decimal code.toNat
  | file cause => "I/O error: ".toList ++ cause.message

end StackComputer
