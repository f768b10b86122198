import Stencil.Environment
import Stencil.Proofs.Inclusion
import Stencil.Proofs.Sections
import Stencil.Proofs.Escaping
import Stencil.Proofs.Spelling
import Stencil.Proofs.Readback
import Stencil.Proofs.Descent
import Stencil.Proofs.Hops
import Stencil.Proofs.Leniency
import Stencil.Proofs.LexicalScope
import Stencil.Proofs.Delivery
import Stencil.Proofs.Trails
import Stencil.Proofs.Rejections
import Stencil.Proofs.TopLevel
import Stencil.Proofs.Harmless
import Stencil.Proofs.Balanced
import Stencil.Proofs.Roots
import Stencil.Proofs.Sessions
import Stencil.Proofs.DirectiveStarts
import Stencil.Proofs.BrokenBlocks
import Stencil.Proofs.Carets
import Stencil.Proofs.Orphans
import Stencil.Proofs.HeaderForms
import Stencil.Proofs.SharedLists
import Stencil.Proofs.LoopNesting
import Stencil.Proofs.LoopProgress
import Stencil.Proofs.Unescaping
import Stencil.Proofs.Choices
import Stencil.Proofs.NamedArguments
import Stencil.Proofs.JoinedSources
import Stencil.Proofs.Colors
import Stencil.Proofs.LoopAgreement
