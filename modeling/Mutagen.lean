import Mutagen.Config.Toml
import Mutagen.Mutant
import Mutagen.Proofs.RoundTrip
import Mutagen.Proofs.Node.Dump
import Mutagen.Proofs.Grammar.Shape
import Mutagen.Proofs.Grammar.Accounts
import Mutagen.Proofs.Grammar.Filled
import Mutagen.Proofs.Grammar.Program
import Mutagen.Proofs.Token.Layout
import Mutagen.Proofs.TreesEqual
import Mutagen.Proofs.Mutation.Contexts
import Mutagen.Proofs.Mutation.Shape
import Mutagen.Proofs.Node.Walk
import Mutagen.Proofs.Node.Fill
import Mutagen.Proofs.Node.Change
import Mutagen.Proofs.Mutation.Outcomes
import Mutagen.Proofs.Mutation.Rename
import Mutagen.Proofs.Mutation.Reparse
import Mutagen.Proofs.SymbolTable
import Mutagen.Proofs.Node.LevelOrder
import Mutagen.Proofs.Grammar.Compound
import Mutagen.Proofs.Grammar.Scan
import Mutagen.Proofs.Token.Leaves
import Mutagen.Proofs.Node.Leaves
import Mutagen.Proofs.Grammar.Triple
import Mutagen.Proofs.Grammar.Leaves
import Mutagen.Proofs.Grammar.SourceOrder
import Mutagen.Proofs.Mutation.Depth
import Mutagen.Proofs.Budget
import Mutagen.Proofs.Token.Moves
import Mutagen.Proofs.Token.Discipline
import Mutagen.Proofs.Token.Cuts
import Mutagen.Proofs.Token.Tabs
import Mutagen.Proofs.Token.Lossless
import Mutagen.Proofs.Grammar.Congruence
import Mutagen.Proofs.Grammar.Blame
import Mutagen.Proofs.Places
import Mutagen.Proofs.Token.Literals
import Mutagen.Proofs.Token.Pairs
import Mutagen.Proofs.Token.Reach
import Mutagen.Proofs.Grammar.Pairs
import Mutagen.Proofs.Token.Apart
import Mutagen.Proofs.Token.Relaid
import Mutagen.Proofs.Grammar.Unplaced
import Mutagen.Proofs.Grammar.Transfer
import Mutagen.Proofs.Grammar.Layout
import Mutagen.Proofs.Grammar.Spelled
import Mutagen.Proofs.Grammar.Relays
import Mutagen.Proofs.Grammar.Parentheses
import Mutagen.Proofs.Arena.LevelOrder
import Mutagen.Proofs.Config
