import Os2018.Whatsapp.Common

/-!
# Parsing commands

`parseCommand` copies the command into a buffer of `WA_MAX_INPUT` bytes, cuts
the copy with `strtok_r` and reads the message of a `send` off the original
string at an offset computed from the length of the name. It can go wrong in
three ways, which the model keeps apart: `strcpy` writes past the buffer,
`strcmp` is given a null token, or `substr` raises `out_of_range`.
-/

set_option autoImplicit false

namespace Os2018.Whatsapp

inductive CommandType where
  | createGroup
  | send
  | who
  | exit
  | invalid
  deriving DecidableEq, Repr

/-- What `parseCommand` assigns to its output arguments. -/
structure ParsedCommand where
  commandT : CommandType
  name : CppString := []
  message : CppString := []
  clients : List CppString := []
  deriving DecidableEq, Repr

inductive ParseError where
  /-- `strcpy` writes past the local buffer. -/
  | bufferOverflow
  /-- `strcmp` reads through a null pointer. -/
  | nullToken
  /-- `substr` raises the exception `out_of_range`. -/
  | outOfRange
  deriving DecidableEq, Repr

/-- `strtok_r`: the token, or null, and the string `saveptr` points to. -/
def strtok (delims rest : CppString) : Option CppString × CppString :=
  match rest.dropWhile (· ∈ delims) with
  | [] => (none, [])
  | first :: tail =>
      (some ((first :: tail).takeWhile (· ∉ delims)),
        ((first :: tail).dropWhile (· ∉ delims)).drop 1)

/-- `while ((s = strtok_r(NULL, delims, &saveptr)) != NULL)`: the tokens of all
rounds. A round takes at least one byte, so as many rounds as bytes are
enough. -/
def strtokLoop (delims : CppString) : Nat → CppString → List CppString
  | 0, _ => []
  | rounds + 1, rest =>
      match strtok delims rest with
      | (none, _) => []
      | (some token, rest) => token :: strtokLoop delims rounds rest

/-- `command.substr(pos)`. -/
def substr (command : CppString) (pos : Nat) : Except ParseError CppString :=
  if command.length < pos then .error .outOfRange else .ok (command.drop pos)

def parseCommand (command : CppString) : Except ParseError ParsedCommand :=
  if command.length = 0 then .ok { commandT := .invalid }
  else if waMaxInput < (cString command).length + 1 then .error .bufferOverflow
  else
    match strtok " ".toList (cString command) with
    | (none, _) => .error .nullToken
    | (some s, rest) =>
        if s = "create_group".toList then
          match strtok " ".toList rest with
          | (none, _) => .ok { commandT := .invalid }
          | (some name, rest) =>
              .ok { commandT := .createGroup, name,
                    clients := strtokLoop ",".toList rest.length rest }
        else if s = "send".toList then
          match strtok " ".toList rest with
          | (none, _) => .ok { commandT := .invalid }
          | (some name, _) => do
              -- 6 stands for the word "send" and two spaces
              let message ← substr command (name.length + 6)
              return { commandT := .send, name, message }
        else if s = "who".toList then .ok { commandT := .who }
        else if s = "exit".toList then .ok { commandT := .exit }
        else .ok { commandT := .invalid }

/-- `parseCommand` with its output arguments as the caller passes them: the
variables of the client's `main`, which keep what the last command left in
them. -/
def parseCommandInto (outputs : ParsedCommand) (command : CppString) :
    Except ParseError ParsedCommand :=
  let outputs := { outputs with name := [], message := [], clients := [] }
  if command.length = 0 then .ok { outputs with commandT := .invalid }
  else if waMaxInput < (cString command).length + 1 then .error .bufferOverflow
  else
    match strtok " ".toList (cString command) with
    | (none, _) => .error .nullToken
    | (some s, rest) =>
        if s = "create_group".toList then
          let outputs := { outputs with commandT := .createGroup }
          match strtok " ".toList rest with
          | (none, _) => .ok { outputs with commandT := .invalid }
          | (some name, rest) =>
              let outputs := { outputs with name }
              .ok { outputs with
                clients := outputs.clients ++ strtokLoop ",".toList rest.length rest }
        else if s = "send".toList then
          let outputs := { outputs with commandT := .send }
          match strtok " ".toList rest with
          | (none, _) => .ok { outputs with commandT := .invalid }
          | (some name, _) => do
              let outputs := { outputs with name }
              let message ← substr command (name.length + 6)
              return { outputs with message }
        else if s = "who".toList then .ok { outputs with commandT := .who }
        else if s = "exit".toList then .ok { outputs with commandT := .exit }
        else .ok { outputs with commandT := .invalid }

/-- `isalnum` in the C locale. -/
def isalnum (c : Byte) : Bool := c.isAlphanum

/-- `validateName` of the client. -/
def validateName (name : CppString) : Bool := name.all isalnum

example : parseCommand "create_group g a,b".toList =
    .ok { commandT := .createGroup, name := ['g'], clients := [['a'], ['b']] } := by
  decide +kernel

end Os2018.Whatsapp
